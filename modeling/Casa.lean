import Casa.Lib.Exec
import Casa.Lib.MachineInt
import Casa.Lib.LeBytes
import Casa.Error
import Casa.Vm
import Casa.Cpu.Flags
import Casa.Cpu.State
import Casa.Cpu.Memory
import Casa.Cpu.Ir
import Casa.Cpu.Machine
import Casa.Cpu.Frame
import Casa.Cpu.Alu
import Casa.Cpu.Shift
import Casa.Cpu.Bits
import Casa.Cpu.Multiply
import Casa.Cpu.Transfer
import Casa.Cpu.Strings
import Casa.Cpu.Stack
import Casa.Cpu.System
import Casa.Cpu.ColdPath
import Casa.Cpu.Interpreter
import Casa.Cpu.Writes
import Casa.Cpu.LazyFlags
import Casa.Cpu.AdxChains
import Casa.Cpu.Division
import Casa.Cpu.MultiplyDivide
import Casa.Jit.Emitter
import Casa.Jit.NativeCompare
import Casa.Cpu.CheckedWrite
import Casa.Cpu.DepositExtract
import Casa.Cpu.Faults
import Casa.Cpu.FlagUse
import Casa.Cpu.Interlocked
import Casa.Cpu.MemoryMap
import Casa.Cpu.MemoryRefinement
import Casa.Cpu.PageProtection
import Casa.Cpu.RotateCarry
import Casa.Cpu.StringDirection
import Casa.Jit.ConstantFold
import Casa.Jit.ShiftAgreement
import Casa.Casak.CommitCharge
import Casa.Runtime.VirtualAlloc
import Casa.Runtime.WakeEpoch
import Casa.Vm.Query
import Casa.Jit.AotRecord
import Casa.Jit.ProfileTargets
import Casa.Seh.Prolog
import Casa.Seh.Chain
import Casa.Seh.FunctionTable
import Casa.Jit.SliceLinear
import Casa.Jit.CodeInvalidation
import Casa.Jit.InlineCache
import Casa.Jit.UnwindTable
import Casa.Casak.ObjectReferences
import Casa.Casak.SectionViews
import Casa.Win32.MutexOwnership
import Casa.Win32.Semaphores
import Casa.Win32.NamedObjects
import Casa.Win32.HandleLifetimes
import Casa.Win32.ObjectNames
import Casa.Threads.ConditionVariable
import Casa.Threads.SrwLock
import Casa.Audio.RingBuffer
import Casa.Audio.Samples
