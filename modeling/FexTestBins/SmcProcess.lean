import FexTestBins.Library.Crashing
import FexTestBins.Library.SharedPages
import FexTestBins.Smc

/-!
# What the tests of self-modifying code call

The functions of the C library and the system calls that `smc-shared.cpp`, `smc-shared-2.cpp`,
`smc-2.cpp`, `smc-fd.cpp` and `smc-shmatdt.cpp` use, as far as they use them. Pages are given by
their number, so that `code + 4096` is the page after `code`. Where the kernel places a mapping,
which bytes a call executes, whether a `fork` succeeds and how `stdout` is buffered are parameters.
A mapping call that is refused counts as a crash, since the tests go on with the pointer unchecked.
-/

namespace FexTestBins.SmcProcess

open Words SmcSignals Crashing SharedPages

/-- A call that was made: where, of which object the page was, the six bytes then in it, and the six
bytes executed. -/
structure Call where
  page : Nat
  object : Nat
  current : List Byte
  executed : List Byte

/-- What is printed: `"%s-%d: %X, %s\n"`. -/
structure Line where
  name : String
  number : Nat
  value : BitVec 32
  verdict : Smc.Verdict

/-- The state of a process: its address space, the calls made so far in it and in the processes it
was forked from, and the lines that `stdio` still holds. -/
structure Process where
  views : Views Prot
  calls : List Call
  buffer : List Line

/-- The state that processes share. An object is an anonymous mapping, a segment or a file, with a
number of pages and, for a file, its name and the position of its descriptor. There is a record of
the calls that the processes made that have ended. -/
structure System where
  objects : Nat
  sizes : Nat → Nat
  contents : Contents Byte
  linked : Nat → Bool
  position : Nat → Nat
  forks : Nat
  output : List Line
  childCalls : List Call

structure State extends Process, System

/-- The kernel places new mappings where nothing is mapped, or refuses to. It is unspecified whether
a private mapping of a file sees what is written to the file later. The machine executes what is in
a page, or what was in it at an earlier call. -/
structure Platform where
  place : List Nat → Nat → Option Nat
  place_free : ∀ used count page, place used count = some page → ∀ i < count, page + i ∉ used
  executes : List Call → Nat → List Byte → List Byte
  executable : ∀ calls page current, executes calls page current = current
    ∨ ∃ call ∈ calls, call.page = page ∧ executes calls page current = call.current
  forks : Nat → Bool
  lineBuffered : Bool
  privateSees : Bool

abbrev M := Program State

/-- `PROT_READ | PROT_WRITE` -/
def rw : Prot := { write := true, exec := false }

def viewAt (page : Nat) : M (View Prot) := require fun s => s.views.view? page

/-- The view through which a page is accessed, which must be of a page that the object has. -/
def access (page : Nat) (allowed : Prot → Bool) : M (View Prot) :=
  require fun s => (s.views.view? page).filter fun view =>
    allowed view.prot && view.index < s.sizes view.object

variable (platform : Platform)

/-- New views, where the kernel places them. -/
def mapNew (count : Nat) (view : Nat → View Prot) : M Nat := do
  let page ← require fun s => platform.place s.views.pages count
  update fun s => { s with views := s.views.map page count view }
  return page

/-- An object of zeros. -/
def newObject (count : Nat) : M Nat := fun s =>
  (some s.objects, { s with
    objects := s.objects + 1
    sizes := Function.update s.sizes s.objects count
    contents := Function.update s.contents s.objects fun _ _ => 0
    linked := Function.update s.linked s.objects true
    position := Function.update s.position s.objects 0 })

/-! ### Mappings -/

/-- `mmap(0, count * 4096, prot, MAP_SHARED | MAP_ANON, 0, 0)` -/
def mmapAnon (count : Nat) (prot : Prot) : M Nat := do
  let object ← newObject count
  mapNew platform count fun i => ⟨object, i, prot⟩

/-- `mmap(page * 4096, 4096, prot, MAP_FIXED | MAP_PRIVATE | MAP_ANON, 0, 0)`, in a process that
does not fork. -/
def mmapFixed (page : Nat) (prot : Prot) : M Nat := do
  let object ← newObject 1
  update fun s => { s with
    views := (s.views.unmap fun p _ => p == page).map page 1 fun i => ⟨object, i, prot⟩ }
  return page

/-- `mmap(0, 4096, prot, MAP_SHARED, fd, 0)` -/
def mmapFile (prot : Prot) (fd : Nat) : M Nat := mapNew platform 1 fun i => ⟨fd, i, prot⟩

/-- `mmap(0, 4096, prot, MAP_PRIVATE, fd, 0)`, of a page that is not stored to. Where the mapping
does not see what is written later, it is of a copy of the file. -/
def mmapPrivate (prot : Prot) (fd : Nat) : M Nat :=
  if platform.privateSees then mmapFile platform prot fd
  else do
    let object ← newObject 1
    update fun s => { s with contents := Function.update s.contents object (s.contents fd) }
    mapNew platform 1 fun i => ⟨object, i, prot⟩

/-- `mremap(old, 0, 4096, MREMAP_MAYMOVE)`, which maps the pages of a shared mapping once more. -/
def mremap (old : Nat) : M Nat := do
  let view ← viewAt old
  mapNew platform 1 fun i => { view with index := view.index + i }

/-- `mprotect(page, 4096, prot)` -/
def mprotect (page : Nat) (prot : Prot) : M PUnit :=
  update fun s => { s with views := s.views.protect page prot }

/-- `shmget(IPC_PRIVATE, count * 4096, IPC_CREAT | 0777)` -/
def shmget (count : Nat) : M Nat := newObject count

/-- `shmat(shm, nullptr, exec ? SHM_EXEC : 0)` -/
def shmat (shm : Nat) (exec : Bool) : M Nat := do
  let count ← require fun s => some (s.sizes shm)
  mapNew platform count fun i => ⟨shm, i, { write := true, exec := exec }⟩

/-- `shmdt(start)`, which leaves alone what was mapped over the segment since. -/
def shmdt (start : Nat) : M PUnit := do
  let view ← viewAt start
  update fun s => { s with
    views := s.views.unmap fun p other => other.object == view.object && p == start + other.index }

/-! ### Files -/

/-- `mkstemp(file)` and `shm_open(file, O_RDWR | O_CREAT, 0700)`, with a name that is not in use. -/
def mkstemp : M Nat := newObject 0

/-- `open(file, O_RDONLY)` -/
def openFile (file : Nat) : M Nat := require fun s => if s.linked file then some file else none

def unlink (file : Nat) : M PUnit :=
  update fun s => { s with linked := Function.update s.linked file false }

/-- `ftruncate(fd, count * 4096)` -/
def ftruncate (fd count : Nat) : M PUnit :=
  update fun s => { s with sizes := Function.update s.sizes fd count }

/-- `lseek(fd, offset, SEEK_SET)` -/
def lseek (fd offset : Nat) : M PUnit :=
  update fun s => { s with position := Function.update s.position fd offset }

/-- `write(fd, …)` of a byte, which stays on the first page here. -/
def writeByte (fd : Nat) (value : Byte) : M PUnit :=
  update fun s => { s with
    contents := s.contents.store fd 0 (s.position fd) value
    position := Function.update s.position fd (s.position fd + 1) }

/-- `write(fd, code, n)` -/
def write (fd : Nat) (values : List Byte) : M PUnit := values.forM (writeByte fd)

/-! ### The function -/

/-- `code[k] = value` -/
def store (code k : Nat) (value : Byte) : M PUnit := do
  let view ← access code Prot.write
  update fun s => { s with contents := s.contents.store view.object view.index k value }

/-- The six bytes at the start of a page, which are the function called. -/
def fn (bytes : Nat → Byte) : List Byte := (List.range 6).map bytes

/-- `fn()` -/
def call (code : Nat) : M (BitVec 32) := do
  let view ← access code Prot.exec
  let current ← require fun s => some (fn (s.contents.page view))
  let executed ← require fun s => some (platform.executes s.calls code current)
  update fun s => { s with calls := s.calls ++ [⟨code, view.object, current, executed⟩] }
  return immediate executed

/-! ### Output and processes -/

def printf (line : Line) : M PUnit :=
  update fun s =>
    if platform.lineBuffered then { s with output := s.output ++ [line] }
    else { s with buffer := s.buffer ++ [line] }

/-- The end of a process. -/
def exit : M PUnit := update fun s => { s with output := s.output ++ s.buffer, buffer := [] }

/-- The parent once a child has ended, which began with the calls that the parent had made. -/
def State.afterChild (parent child : State) : State :=
  { parent with toSystem := { child.toSystem with
    childCalls := child.childCalls ++ child.calls.drop parent.calls.length } }

/-- `fork()`, with what the child does until its end, during which the parent is in `wait`. If there
is no child, `wait` returns at once. -/
def forkWait (child : M PUnit) : M PUnit := fun s =>
  let s := { s with forks := s.forks + 1 }
  if platform.forks (s.forks - 1) then (some .unit, s.afterChild (child s).2)
  else (some .unit, s)

end FexTestBins.SmcProcess
