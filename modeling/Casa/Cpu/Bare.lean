import Casa.Cpu.System

/-! A guest without a vector unit, a port bus or CPU virtualization, on which
programs can be evaluated. -/
namespace Casa.Cpu
open Effect

abbrev barePlatform : Platform := ⟨Empty, Unit⟩

def bareHost : Host barePlatform where
  virtualization := none
  portBus := none
  clock _ := (0, ())
  random _ := (none, ())
  asF32 _ := 0
  execute op := nomatch op
  target op := nomatch op

/-- A fresh processor with the given registers, over the given pages. -/
def bareMachine (arch : GuestArch) (gpr : Register → U64) (pages : List (U64 × MemoryPage)) :
    Machine barePlatform where
  cpu := { CpuState.new arch with gpr }
  memory := MemoryImage.ofPages pages
  device := ()

end Casa.Cpu
