import FexTestBins.Proof.SmcFailureSet
import FexTestBins.SmcShared

/-!
# What the calls of the tests do

A specification for each mapping call, store, call and line.
-/

namespace FexTestBins.SmcProcess

open Words SmcSignals Crashing SharedPages

variable {platform : Platform} {s s' s'' : State} {page count object index : Nat} {prot : Prot}
  {view : Nat → View Prot}

/-- The kernel refuses no mapping. -/
def Platform.Places (platform : Platform) : Prop := ∀ used count, (platform.place used count).isSome

/-- A page that can be accessed as its protection says. -/
structure Mapped (s : State) (page object index : Nat) (prot : Prot) : Prop where
  view : s.views.view? page = some ⟨object, index, prot⟩
  object_lt : object < s.objects
  index_lt : index < s.sizes object

/-- No child was made. -/
structure Alone (s s' : State) : Prop where
  forks : s'.forks = s.forks
  childCalls : s'.childCalls = s.childCalls

theorem Alone.refl (s : State) : Alone s s := ⟨rfl, rfl⟩

theorem Alone.trans (h : Alone s s') (h' : Alone s' s'') : Alone s s'' :=
  ⟨h'.forks.trans h.forks, h'.childCalls.trans h.childCalls⟩

/-- What a mapping call may change: there are new pages and objects, and the others stay. -/
structure Grows (s s' : State) : Prop where
  views : ∀ page view, s.views.view? page = some view → s'.views.view? page = some view
  pages : s.views.pages ⊆ s'.views.pages
  objects : s.objects ≤ s'.objects
  sizes : ∀ object < s.objects, s.sizes object ≤ s'.sizes object
  calls : s'.calls = s.calls
  buffer : s'.buffer = s.buffer
  output : s'.output = s.output
  alone : Alone s s'

theorem Grows.refl (s : State) : Grows s s :=
  ⟨fun _ _ h => h, fun _ h => h, le_rfl, fun _ _ => le_rfl, rfl, rfl, rfl, .refl s⟩

theorem Grows.trans (h : Grows s s') (h' : Grows s' s'') : Grows s s'' where
  views := fun page view hview => h'.views page view (h.views page view hview)
  pages := fun _ hmem => h'.pages (h.pages hmem)
  objects := h.objects.trans h'.objects
  sizes := fun object hlt => (h.sizes object hlt).trans (h'.sizes object (hlt.trans_le h.objects))
  calls := h'.calls.trans h.calls
  buffer := h'.buffer.trans h.buffer
  output := h'.output.trans h.output
  alone := h.alone.trans h'.alone

theorem Mapped.grows (h : Mapped s page object index prot) (hgrows : Grows s s') :
    Mapped s' page object index prot where
  view := hgrows.views _ _ h.view
  object_lt := h.object_lt.trans_le hgrows.objects
  index_lt := h.index_lt.trans_le (hgrows.sizes object h.object_lt)

/-! ### The mapping calls -/

/-- An object that is new. -/
structure Created (s s' : State) (object count : Nat) : Prop where
  grows : Grows s s'
  views : s'.views = s.views
  le : s.objects ≤ object
  lt : object < s'.objects
  size : s'.sizes object = count
  position : s'.position object = 0

theorem returns_newObject (s : State) (count : Nat) :
    Returns (newObject count) s fun object s' =>
      Created s s' object count ∧ s'.linked object = true := by
  refine ⟨_, _, rfl, ⟨⟨fun _ _ h => h, fun _ h => h, Nat.le_succ _, ?_, rfl, rfl, rfl, ⟨rfl, rfl⟩⟩,
    rfl, le_rfl, Nat.lt_succ_self _, Function.update_self .., Function.update_self ..⟩,
    Function.update_self ..⟩
  intro object hlt
  exact (Function.update_of_ne hlt.ne _ _).ge

theorem grows_map (hfree : ∀ i < count, page + i ∉ s.views.pages) (view : Nat → View Prot) :
    Grows s { s with views := s.views.map page count view } := by
  refine ⟨?_, fun _ => Views.mem_pages_map, le_rfl, fun _ _ => le_rfl, rfl, rfl, rfl, ⟨rfl, rfl⟩⟩
  intro p kept hview
  change (s.views.map page count view).view? p = some kept
  rw [Views.view?_map, if_neg, hview]
  rintro ⟨hle, hlt⟩
  have hnot := hfree (p - page) (by omega)
  rw [Nat.add_sub_cancel' hle] at hnot
  exact hnot (Views.mem_pages_of_view? hview)

theorem returns_mapNew (hplaces : platform.Places) (s : State) (count : Nat)
    (view : Nat → View Prot) :
    Returns (mapNew platform count view) s fun page s' =>
      (∀ i < count, page + i ∉ s.views.pages)
        ∧ s' = { s with views := s.views.map page count view } := by
  obtain ⟨page, hpage⟩ := Option.isSome_iff_exists.mp (hplaces s.views.pages count)
  exact returns_require_bind hpage (returns_update_bind (returns_pure
    ⟨platform.place_free _ _ _ hpage, rfl⟩))

/-- The new page is of an object that there is. -/
theorem mapped_map {i : Nat} (hi : i < count) (hobject : (view i).object < s.objects)
    (hindex : (view i).index < s.sizes (view i).object) :
    Mapped { s with views := s.views.map page count view } (page + i) (view i).object (view i).index
      (view i).prot where
  view := by
    change (s.views.map page count view).view? (page + i) = _
    rw [Views.view?_map, if_pos (by omega), Nat.add_sub_cancel_left]
  object_lt := hobject
  index_lt := hindex

theorem returns_mmapAnon (hplaces : platform.Places) (s : State) (count : Nat) (prot : Prot) :
    Returns (mmapAnon platform count prot) s fun page s' => Grows s s'
      ∧ (∀ i < count, page + i ∉ s.views.pages)
      ∧ ∃ object, ∀ i < count, Mapped s' (page + i) object i prot := by
  refine (returns_newObject s count).bind ?_
  rintro object s1 ⟨hcreated, -⟩
  refine (returns_mapNew hplaces s1 count _).mono ?_
  rintro page s2 ⟨hfree, rfl⟩
  refine ⟨hcreated.grows.trans (grows_map hfree _),
    fun i hi hmem => hfree i hi (hcreated.grows.pages hmem), object, ?_⟩
  exact fun i hi => mapped_map hi hcreated.lt (hi.trans_eq hcreated.size.symm)

/-- A page that is mapped once more. -/
theorem returns_mremap (hplaces : platform.Places) (h : Mapped s page object index prot) :
    Returns (mremap platform page) s fun page' s' => Grows s s' ∧ page' ∉ s.views.pages
      ∧ Mapped s' page' object index prot := by
  refine returns_require_bind h.view ((returns_mapNew hplaces s 1 _).mono ?_)
  rintro page' s' ⟨hfree, rfl⟩
  exact ⟨grows_map hfree _, hfree 0 Nat.one_pos, mapped_map Nat.one_pos h.object_lt h.index_lt⟩

theorem returns_shmat_eq (hplaces : platform.Places) (s : State) (shm : Nat) (exec : Bool) :
    Returns (shmat platform shm exec) s fun page s' =>
      (∀ i < s.sizes shm, page + i ∉ s.views.pages)
        ∧ s' = { s with views := s.views.map page (s.sizes shm) fun i =>
          ⟨shm, i, { write := true, exec := exec }⟩ } :=
  returns_require_bind rfl (returns_mapNew hplaces s _ _)

theorem returns_shmat (hplaces : platform.Places) {shm : Nat} (hshm : shm < s.objects)
    (exec : Bool) :
    Returns (shmat platform shm exec) s fun page s' => Grows s s'
      ∧ (∀ i < s.sizes shm, page + i ∉ s.views.pages)
      ∧ ∀ i < s.sizes shm, Mapped s' (page + i) shm i { write := true, exec := exec } := by
  refine (returns_shmat_eq hplaces s shm exec).mono ?_
  rintro page s' ⟨hfree, rfl⟩
  exact ⟨grows_map hfree _, hfree, fun i hi => mapped_map hi hshm hi⟩

theorem returns_mmapFile (hplaces : platform.Places) {fd : Nat} (hfd : fd < s.objects)
    (hsize : 0 < s.sizes fd) (prot : Prot) :
    Returns (mmapFile platform prot fd) s fun page s' => Grows s s' ∧ page ∉ s.views.pages
      ∧ Mapped s' page fd 0 prot ∧ s'.toSystem = s.toSystem := by
  refine (returns_mapNew hplaces s 1 _).mono ?_
  rintro page s' ⟨hfree, rfl⟩
  exact ⟨grows_map hfree _, hfree 0 Nat.one_pos, mapped_map Nat.one_pos hfd hsize, rfl⟩

/-! ### Files -/

section

variable {α : Type} {post : α → State → Prop}

theorem returns_unlink (h : Created s s' object count) :
    Returns (unlink object) s' fun _ s'' => Created s s'' object count := by
  have hgrows : Grows s' { s' with linked := Function.update s'.linked object false } :=
    ⟨fun _ _ h => h, fun _ h => h, le_rfl, fun _ _ => le_rfl, rfl, rfl, rfl, ⟨rfl, rfl⟩⟩
  exact returns_update ⟨h.grows.trans hgrows, h.views, h.le, h.lt, h.size, h.position⟩

/-- An empty file gets its size. -/
theorem returns_ftruncate (h : Created s s' object 0) (count : Nat) :
    Returns (ftruncate object count) s' fun _ s'' => Created s s'' object count := by
  refine returns_update ⟨h.grows.trans ⟨fun _ _ h => h, fun _ h => h, le_rfl, ?_, rfl, rfl, rfl,
    ⟨rfl, rfl⟩⟩, h.views, h.le, h.lt, Function.update_self .., h.position⟩
  intro other _
  by_cases heq : other = object
  · simp [heq, h.size]
  · exact (Function.update_of_ne heq _ _).ge

/-- A file of one page. -/
theorem returns_file {rest : Nat → M α}
    (hrest : ∀ fd s', Created s s' fd 1 → Returns (rest fd) s' post) :
    Returns (do
      let fd ← mkstemp
      unlink fd
      ftruncate fd 1
      rest fd) s post := by
  refine (returns_newObject s 0).bind ?_
  rintro fd s1 ⟨hcreated, -⟩
  refine (returns_unlink hcreated).bind ?_
  rintro - s2 hcreated
  refine (returns_ftruncate hcreated 1).bind ?_
  rintro - s3 hcreated
  exact hrest fd s3 hcreated

/-- A file of one page that is opened a second time while it has a name. -/
theorem returns_file_twice {rest : Nat → Nat → M α}
    (hrest : ∀ fd s', Created s s' fd 1 → Returns (rest fd fd) s' post) :
    Returns (do
      let fd ← mkstemp
      let fd2 ← openFile fd
      unlink fd
      ftruncate fd 1
      rest fd fd2) s post := by
  refine (returns_newObject s 0).bind ?_
  rintro fd s1 ⟨hcreated, hlinked⟩
  refine returns_require_bind (if_pos hlinked) ((returns_unlink hcreated).bind ?_)
  rintro - s2 hcreated
  refine (returns_ftruncate hcreated 1).bind ?_
  rintro - s3 hcreated
  exact hrest fd s3 hcreated

/-! ### Stores, calls and lines -/

def State.put (s : State) (object index k : Nat) (value : Byte) : State :=
  { s with contents := s.contents.store object index k value }

def State.called (s : State) (c : Call) : State := { s with calls := s.calls ++ [c] }

/-- The state once some lines were printed. -/
def State.printed (s : State) (platform : Platform) (lines : List Line) : State :=
  if platform.lineBuffered then { s with output := s.output ++ lines }
  else { s with buffer := s.buffer ++ lines }

theorem Mapped.put {object' index' k : Nat} {value : Byte} (h : Mapped s page object index prot) :
    Mapped (s.put object' index' k value) page object index prot :=
  ⟨h.view, h.object_lt, h.index_lt⟩

theorem Mapped.called {c : Call} (h : Mapped s page object index prot) :
    Mapped (s.called c) page object index prot :=
  ⟨h.view, h.object_lt, h.index_lt⟩

theorem Mapped.access_eq (h : Mapped s page object index prot) {allowed : Prot → Bool}
    (hallowed : allowed prot = true) :
    (s.views.view? page).filter (fun view =>
      allowed view.prot && decide (view.index < s.sizes view.object))
        = some ⟨object, index, prot⟩ := by
  simp [h.view, hallowed, h.index_lt]

theorem returns_store_bind {rest : PUnit → M α} {k : Nat} {value : Byte}
    (h : Mapped s page object index prot) (hwrite : prot.write = true)
    (hrest : Returns (rest .unit) (s.put object index k value) post) :
    Returns (store page k value >>= rest) s post := by
  have hstore : Returns (store page k value) s fun _ s' => s' = s.put object index k value :=
    returns_require_bind (h.access_eq hwrite) (returns_update rfl)
  refine hstore.bind ?_
  rintro ⟨⟩ _ rfl
  exact hrest

/-- A call executes the bytes in the page, or those of an earlier call at the same address. -/
theorem returns_call_bind {rest : BitVec 32 → M α} {current : List Byte}
    (h : Mapped s page object index prot) (hexec : prot.exec = true)
    (hcurrent : fn (s.contents object index) = current)
    (hrest : ∀ executed, (executed = current
        ∨ ∃ c ∈ s.calls, c.page = page ∧ executed = c.current) →
      Returns (rest (immediate executed)) (s.called ⟨page, object, current, executed⟩) post) :
    Returns (call platform page >>= rest) s post := by
  have hcall : Returns (call platform page) s fun value s' => ∃ executed, (executed = current
      ∨ ∃ c ∈ s.calls, c.page = page ∧ executed = c.current)
      ∧ value = immediate executed ∧ s' = s.called ⟨page, object, current, executed⟩ := by
    refine returns_require_bind (h.access_eq hexec) (returns_require_bind (congrArg some hcurrent)
      (returns_require_bind rfl (returns_update_bind (returns_pure ?_))))
    exact ⟨_, platform.executable s.calls page current, rfl, rfl⟩
  refine hcall.bind ?_
  rintro _ _ ⟨executed, hexecuted, rfl, rfl⟩
  exact hrest executed hexecuted

theorem returns_printf (s : State) (line : Line) :
    Returns (printf platform line) s fun _ s' => s' = s.printed platform [line] :=
  returns_update rfl

theorem returns_printf_bind {rest : PUnit → M α} {line : Line}
    (hrest : Returns (rest .unit) (s.printed platform [line]) post) :
    Returns (printf platform line >>= rest) s post :=
  returns_update_bind hrest

theorem State.printed_views (s : State) (lines : List Line) :
    (s.printed platform lines).views = s.views := by
  unfold State.printed
  split <;> rfl

theorem State.printed_calls (s : State) (lines : List Line) :
    (s.printed platform lines).calls = s.calls := by
  unfold State.printed
  split <;> rfl

theorem State.alone_printed (s : State) (lines : List Line) :
    Alone s (s.printed platform lines) := by
  unfold State.printed
  split <;> exact ⟨rfl, rfl⟩

theorem State.printed_printed (s : State) (l l' : List Line) :
    (s.printed platform l).printed platform l' = s.printed platform (l ++ l') := by
  unfold State.printed
  split <;> simp

/-- The six stores with which every test begins. -/
def State.written (s : State) (object index : Nat) : State :=
  (((((s.put object index 0 0xB8).put object index 1 0xAA).put object index 2 0xBB).put object index
    3 0xCC).put object index 4 0xDD).put object index 5 0xC3

theorem Mapped.written (h : Mapped s page object index prot) (object' index' : Nat) :
    Mapped (s.written object' index') page object index prot :=
  h.put.put.put.put.put.put

theorem returns_written {rest : M α} (h : Mapped s page object index prot)
    (hwrite : prot.write = true) (hrest : Returns rest (s.written object index) post) :
    Returns (do
      store page 0 0xB8
      store page 1 0xAA
      store page 2 0xBB
      store page 3 0xCC
      store page 4 0xDD
      store page 5 0xC3
      rest) s post := by
  refine returns_store_bind h hwrite (returns_store_bind h.put hwrite
    (returns_store_bind h.put.put hwrite (returns_store_bind h.put.put.put hwrite ?_)))
  exact returns_store_bind h.put.put.put.put hwrite
    (returns_store_bind h.put.put.put.put.put hwrite hrest)

theorem fn_written (s : State) (object index : Nat) :
    fn ((s.written object index).contents object index) = version 0 := by
  simp [State.written, State.put, Contents.store, fn, version, List.range_succ]

/-- The fourth byte tells the functions apart. -/
theorem fn_patched {i j : Fin 4} {value : Byte} (hfn : fn (s.contents object index) = version i)
    (hvalue : (version i).set 3 value = version j) :
    fn ((s.put object index 3 value).contents object index) = version j := by
  rw [← hvalue, ← hfn]
  simp [State.put, Contents.store, fn, List.range_succ]

end

end FexTestBins.SmcProcess
