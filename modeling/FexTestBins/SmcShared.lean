import FexTestBins.SmcProcess

/-!
# `smc-shared.cpp` and `smc-shared-2.cpp`

The function is written through one address and called through another, which is mapped to the same
memory in one of several ways; or it is patched by a child process.
-/

namespace FexTestBins.SmcShared

open SmcSignals Smc SmcProcess Crashing

variable (platform : Platform)

/-- `test` of `smc-shared.cpp`, behind its assertion; all of `test` of `smc-shared-2.cpp`. -/
def testCalls (code codeexec : Nat) (name : String) : M PUnit := do
  store code 0 0xB8
  store code 1 0xAA
  store code 2 0xBB
  store code 3 0xCC
  store code 4 0xDD
  store code 5 0xC3
  let e1 ← call platform codeexec
  store code 3 0xFE
  let e2 ← call platform codeexec
  printf platform ⟨name, 1, e1, verdict (e1 ≠ 0xDDCCBBAA)⟩
  printf platform ⟨name, 2, e2, verdict (e2 ≠ 0xDDFEBBAA)⟩

def test (code codeexec : Nat) (name : String) : M PUnit := do
  if code = codeexec then crash
  testCalls platform code codeexec name

def main : M PUnit := do
  do
    let code ← mmapAnon platform 1 rwx
    let code2 ← mremap platform code
    test platform code code2 "mmap+mremap"
  do
    let code ← mmapAnon platform 2 rwx
    let code2 ← mremap platform (code + 1)
    test platform (code + 1) code2 "mmap+mremap_mid"
  do
    let shm ← shmget 1
    let code3 ← shmat platform shm false
    let code4 ← shmat platform shm true
    test platform code3 code4 "shmat"
  do
    let shm2 ← shmget 1
    let code5 ← shmat platform shm2 true
    let code6 ← mremap platform code5
    test platform code5 code6 "shmat+mremap"
  do
    let shm2 ← shmget 2
    let code5 ← shmat platform shm2 true
    let code6 ← mremap platform (code5 + 1)
    test platform (code5 + 1) code6 "shmat+mremap_mid"
  do
    let fd ← mkstemp
    unlink fd
    ftruncate fd 1
    let code7 ← mmapFile platform rw fd
    let code8 ← mmapFile platform rx fd
    test platform code7 code8 "mmap+mmap"
  do
    let fd ← mkstemp
    let fd2 ← openFile fd
    unlink fd
    ftruncate fd 1
    let code ← mmapFile platform rw fd
    let code2 ← mmapFile platform rx fd2
    test platform code code2 "mmap+mmap (fd, fd2)"
  do
    let fd ← mkstemp
    unlink fd
    ftruncate fd 1
    let code7 ← mmapFile platform rw fd
    let code8 ← mmapFile platform rx fd
    test platform code7 code8 "shm_open+mmap+mmap"
  do
    let fd ← mkstemp
    let fd2 ← openFile fd
    unlink fd
    ftruncate fd 1
    let code7 ← mmapFile platform rw fd
    let code8 ← mmapFile platform rx fd2
    test platform code7 code8 "shm_open+mmap+mmap (fd, fd2)"
  exit

end FexTestBins.SmcShared

namespace FexTestBins.SmcShared2

open SmcSignals Smc SmcProcess Crashing

variable (platform : Platform)

def test (code codeexec : Nat) (name : String) : M PUnit :=
  SmcShared.testCalls platform code codeexec name

/-- The child stores a byte and exits, while the parent waits. -/
def test2 (code codeexec : Nat) (name : String) : M PUnit := do
  store code 0 0xB8
  store code 1 0xAA
  store code 2 0xBB
  store code 3 0xCC
  store code 4 0xDD
  store code 5 0xC3
  let e1 ← call platform codeexec
  forkWait platform do
    store code 3 0xFE
    exit
  let e2 ← call platform codeexec
  printf platform ⟨name, 1, e1, verdict (e1 ≠ 0xDDCCBBAA)⟩
  printf platform ⟨name, 2, e2, verdict (e2 ≠ 0xDDFEBBAA)⟩

def main : M PUnit := do
  let code ← mmapAnon platform 1 rwx
  let code2 ← mremap platform code
  test platform code code2 "mmap+mremap"
  let shm ← shmget 1
  let code3 ← shmat platform shm false
  let code4 ← shmat platform shm true
  test platform code3 code4 "shmat"
  let shm2 ← shmget 1
  let code5 ← shmat platform shm2 true
  let code6 ← mremap platform code5
  test platform code5 code6 "shmat+mremap"
  let fd ← mkstemp
  unlink fd
  ftruncate fd 1
  let code7 ← mmapFile platform rw fd
  let code8 ← mmapFile platform rx fd
  test platform code7 code8 "mmap+mmap"
  do
    let code ← mmapAnon platform 1 rwx
    test2 platform code code "mmap+fork"
  do
    let shm ← shmget 1
    let code ← shmat platform shm true
    test2 platform code code "shmat+fork"
  do
    let shm ← shmget 1
    let code3 ← shmat platform shm false
    forkWait platform do
      let code4 ← shmat platform shm true
      test platform code3 code4 "fork+shmat (same shmid)"
      exit
  exit

end FexTestBins.SmcShared2
