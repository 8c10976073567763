import FexTestBins.SmcProcess

/-!
# `smc-2.cpp`, `smc-shmatdt.cpp` and `smc-fd.cpp`

`test` of `smc.cpp` on pages that are mapped in other ways: a page of a mapping or a segment that is
mapped twice, and a page mapped over the middle of a segment that is then detached. In `smc-fd.cpp`
the function is not stored but written to the file that is mapped.
-/

namespace FexTestBins.Smc2

open SmcSignals Smc SmcProcess Crashing

variable (platform : Platform)

def test (code : Nat) (name : String) : M PUnit := do
  store code 0 0xB8
  store code 1 0xAA
  store code 2 0xBB
  store code 3 0xCC
  store code 4 0xDD
  store code 5 0xC3
  let e1 ← call platform code
  store code 3 0xFE
  let e2 ← call platform code
  mprotect code rx
  mprotect code rwx
  store code 3 0xF3
  mprotect code rx
  let e3 ← call platform code
  mprotect code rwx
  store code 3 0xF1
  let e4 ← call platform code
  printf platform ⟨name, 1, e1, verdict (e1 ≠ 0xDDCCBBAA)⟩
  printf platform ⟨name, 2, e2, verdict (e2 ≠ 0xDDFEBBAA)⟩
  printf platform ⟨name, 3, e3, verdict (e3 ≠ 0xDDF3BBAA)⟩
  printf platform ⟨name, 4, e4, verdict (e4 ≠ 0xDDF1BBAA)⟩

def main : M PUnit := do
  let code ← mmapAnon platform 1 rwx
  let code2 ← mremap platform code
  test platform code2 "mremap"
  let shm ← shmget 1
  let code3 ← shmat platform shm true
  test platform code3 "shmat"
  let code4 ← mremap platform code3
  test platform code4 "shmat+mremap"
  exit

end FexTestBins.Smc2

namespace FexTestBins.SmcShmatdt

open SmcSignals SmcProcess Crashing

variable (platform : Platform)

def test (code : Nat) (name : String) : M PUnit := Smc2.test platform code name

/-- `shmctl(shmid, IPC_RMID, NULL)` has no effect on what is attached. -/
def main : M PUnit := do
  let shmid ← shmget 3
  let ptrshm ← shmat platform shmid false
  let ptrmmap ← mmapFixed (ptrshm + 1) rwx
  shmdt ptrshm
  test platform ptrmmap "mmap+shmdt"
  exit

end FexTestBins.SmcShmatdt

namespace FexTestBins.SmcFd

open SmcSignals Smc SmcProcess Crashing

variable (platform : Platform)

def test (codeexec fd : Nat) (name : String) : M PUnit := do
  write fd [0xB8, 0xAA, 0xBB, 0xCC, 0xDD, 0xC3]
  let e1 ← call platform codeexec
  lseek fd 3
  write fd [0xFE]
  let e2 ← call platform codeexec
  printf platform ⟨name, 1, e1, verdict (e1 ≠ 0xDDCCBBAA)⟩
  printf platform ⟨name, 2, e2, verdict (e2 ≠ 0xDDFEBBAA)⟩

/-- A mapping outlives the descriptor, so that `close(fd2)` has no effect on it. -/
def main : M PUnit := do
  do
    let fd ← mkstemp
    unlink fd
    ftruncate fd 1
    let code ← mmapFile platform rx fd
    test platform code fd "mmap_shared+fd"
  do
    let fd ← mkstemp
    unlink fd
    ftruncate fd 1
    let code ← mmapPrivate platform rx fd
    test platform code fd "mmap_private+fd"
  do
    let fd ← mkstemp
    let fd2 ← openFile fd
    unlink fd
    ftruncate fd 1
    let code ← mmapFile platform rx fd2
    test platform code fd "mmap_shared+fd2"
  exit

end FexTestBins.SmcFd
