import FexTestBins.Library.ClassicBpf
import FexTestBins.Library.Crashing

/-!
# `secccomp.c`

The program installs a filter that lets the kernel send `SIGSYS` instead of executing `getppid`, and
calls `getppid`. Every system call it makes from then on goes through the filter first. For which
ABI it was built, whether the three calls that set it up succeed, whether it was started with
`SIGSYS` blocked, and how `stdout` is buffered are parameters.
-/

namespace FexTestBins.Seccomp

open ClassicBpf Crashing

/-! ### The filter -/

/-- `struct seccomp_data` -/
structure SeccompData where
  nr : Word
  arch : Word
  instructionPointer : BitVec 64
  args : Fin 6 → BitVec 64

/-- The words of the structure, on a little-endian machine. -/
def SeccompData.words (data : SeccompData) : List Word :=
  data.nr :: data.arch ::
    (data.instructionPointer :: List.ofFn data.args).flatMap fun value : BitVec 64 =>
      [value.setWidth 32, (value >>> 32).setWidth 32]

/-- `BPF_ABS` loads a word, at an offset that is a multiple of its size. -/
def SeccompData.load (data : SeccompData) (k : Word) : Option Word :=
  if k.toNat % 4 = 0 then data.words[k.toNat / 4]? else none

def offsetofNr : Word := 0
def offsetofArch : Word := 4
def auditArchX86_64 : Word := 0xC000003E
def x32SyscallBit : Word := 0x40000000
def seccompRetKill : Word := 0x00000000
def seccompRetKillProcess : Word := 0x80000000
def seccompRetTrap : Word := 0x00030000
def seccompRetAllow : Word := 0x7FFF0000

/-- `filter`, with `__NR_getppid` of the ABI that the program was built for. -/
def filter (nrGetppid : Word) : List SockFilter :=
  [bpfStmt (bpfLd ||| bpfW ||| bpfAbs) offsetofArch,
    bpfJump (bpfJmp ||| bpfJeq ||| bpfK) auditArchX86_64 1 0,
    bpfStmt (bpfRet ||| bpfK) seccompRetKill,
    bpfStmt (bpfLd ||| bpfW ||| bpfAbs) offsetofNr,
    bpfJump (bpfJmp ||| bpfJge ||| bpfK) x32SyscallBit 0 1,
    bpfStmt (bpfRet ||| bpfK) seccompRetKillProcess,
    bpfJump (bpfJmp ||| bpfJeq ||| bpfK) nrGetppid 0 1,
    bpfStmt (bpfRet ||| bpfK) seccompRetTrap,
    bpfStmt (bpfRet ||| bpfK) seccompRetAllow]

inductive Action where
  | kill
  | trap
  | allow
  deriving DecidableEq, Repr

/-- What the kernel does for a returned value. Actions that no value of the filter asks for are left
out. In a process of one thread, to kill this and to kill the process is the same. -/
def action (value : Word) : Action :=
  if value &&& 0xFFFF0000 = seccompRetAllow then .allow
  else if value &&& 0xFFFF0000 = seccompRetTrap then .trap
  else .kill

/-- What the kernel does about a system call in a process with the filter. -/
def decision (nrGetppid : Word) (data : SeccompData) : Option Action :=
  (eval (filter nrGetppid) data.load).map action

/-! ### The process -/

inductive Ending where
  | exited (status : Int)
  | killed
  deriving DecidableEq, Repr

structure State where
  filtered : Bool
  handler : Bool
  buffer : List String
  output : List String
  ending : Option Ending

abbrev M := Program State

/-- The numbers of the system calls of the program under its ABI, and what they meet. Those of
`printf` also set up the buffer and write it, for a line or at the exit. -/
structure Platform where
  nrGetppid : Word
  nrSigaction : Word
  nrSigreturn : Word
  nrExit : Word
  nrsPrintf : List Word
  data : Word → SeccompData
  data_nr : ∀ nr, (data nr).nr = nr
  prctlSucceeds : Bool
  seccompSucceeds : Bool
  sigactionSucceeds : Bool
  sigsysBlocked : Bool
  lineBuffered : Bool

variable (platform : Platform)

/-- The process ends. -/
def finish (ending : Ending) : M PUnit := fun s => (none, { s with ending := some ending })

/-- A system call, and what happens if the filter traps it. Where the filter should fail to return
an action, the call is not made either. -/
def systemCall (trapped : M PUnit) (nr : Word) (effect : M PUnit) : M PUnit := fun s =>
  if s.filtered then
    match decision platform.nrGetppid (platform.data nr) with
    | some .allow => effect s
    | some .trap => trapped s
    | _ => finish .killed s
  else
    effect s

/-- The line reaches the output at once, or waits in the buffer. -/
def State.print (s : State) (line : String) : State :=
  if platform.lineBuffered then { s with output := s.output ++ [line] }
  else { s with buffer := s.buffer ++ [line] }

def State.flush (s : State) : State := { s with output := s.output ++ s.buffer, buffer := [] }

/-- `printf`, whose system calls come before what they print. -/
def printf (trapped : M PUnit) (line : String) : M PUnit := do
  platform.nrsPrintf.forM fun nr => systemCall platform trapped nr (pure .unit)
  update fun s => s.print platform line

/-- In the handler `SIGSYS` is blocked, and to trap a call then kills the process. -/
def sigHandler : M PUnit := do
  printf platform (finish .killed) "SIGSYS!"
  systemCall platform (finish .killed) platform.nrSigreturn (pure .unit)

/-- `SIGSYS`, which the kernel forces: it kills the process that blocks it or does not handle it. -/
def sigsys : M PUnit := fun s =>
  if s.handler && !platform.sigsysBlocked then sigHandler platform s else finish .killed s

/-- The end of the process, with what is in the buffer written first. -/
def exit (status : Int) : M PUnit := do
  platform.nrsPrintf.forM fun nr => systemCall platform (sigsys platform) nr (pure .unit)
  update State.flush
  systemCall platform (sigsys platform) platform.nrExit (finish (.exited status))

/-- `install_filter`, whose `return -10` nobody looks at. -/
def installFilter : M PUnit :=
  update fun s => if platform.seccompSucceeds then { s with filtered := true } else s

/-- `sigaction`, with the handler and an empty mask. -/
def sigaction : M PUnit :=
  systemCall platform (sigsys platform) platform.nrSigaction do
    update fun s => if platform.sigactionSucceeds then { s with handler := true } else s

def main : M PUnit := do
  if !platform.prctlSucceeds then
    exit platform (-11)
  installFilter platform
  sigaction platform
  if !platform.sigactionSucceeds then
    exit platform (-18)
  printf platform (sigsys platform) "About to call getppid()"
  systemCall platform (sigsys platform) platform.nrGetppid (pure .unit)
  printf platform (sigsys platform) "Bye"
  exit platform 0

def start : State :=
  { filtered := false, handler := false, buffer := [], output := [], ending := none }

end FexTestBins.Seccomp
