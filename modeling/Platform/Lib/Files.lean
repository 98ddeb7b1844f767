import Platform.Lib.Serde

/-!
# Files

The files of a directory tree under their paths, and the operations on them as programs of
`EStateM`: an operation that fails leaves what it has done so far.  How the next operations go is
part of the state (`Drive.faults`), so that a statement about every drive is one about every pattern
of failures.

* `saveJson`, `loadJson`        values that are kept as JSON texts;
* `JsonText.exists_lawful`      there is a way to print JSON texts that can be read back.
-/

namespace Platform.Lib

/-! ## programs on a part of the state -/

section
variable {ε σ τ α β : Type}

/-- a program on a part of the state -/
def onPart (get : τ → σ) (set : τ → σ → τ) (x : EStateM ε σ α) : EStateM ε τ α := fun t =>
  match x (get t) with
  | .ok a s => .ok a (set t s)
  | .error e s => .error e (set t s)

/-- a result that is known already -/
def ofExcept : Except ε α → EStateM ε σ α
  | .ok a => pure a
  | .error e => throw e

/-- a program whose result is dropped, as by `let _ =` -/
def ignore (x : EStateM ε σ α) (s : σ) : σ :=
  match x s with
  | .ok _ s' => s'
  | .error _ s' => s'

variable {s s' : σ} {x : EStateM ε σ α} {f : α → EStateM ε σ β}

theorem onPart_of_ok {get : τ → σ} {set : τ → σ → τ} {t : τ} {a : α}
    (h : x (get t) = .ok a s) : onPart get set x t = .ok a (set t s) := by
  unfold onPart
  rw [h]

theorem bind_of_ok {a : α} (h : x s = .ok a s') : (x >>= f) s = f a s' := by
  show EStateM.bind x f s = _
  unfold EStateM.bind
  rw [h]

theorem bind_of_error {e : ε} (h : x s = .error e s') : (x >>= f) s = .error e s' := by
  show EStateM.bind x f s = _
  unfold EStateM.bind
  rw [h]

theorem of_bind_ok {b : β}
    (h : (x >>= f) s = .ok b s') : ∃ a m, x s = .ok a m ∧ f a m = .ok b s' := by
  cases hx : x s with
  | ok a m =>
    rw [bind_of_ok hx] at h
    exact ⟨a, m, rfl, h⟩
  | error e m =>
    rw [bind_of_error hx] at h
    cases h

theorem of_bind_error {e : ε} (h : (x >>= f) s = .error e s') :
    x s = .error e s' ∨ ∃ a m, x s = .ok a m ∧ f a m = .error e s' := by
  cases hx : x s with
  | ok a m =>
    rw [bind_of_ok hx] at h
    exact .inr ⟨a, m, rfl, h⟩
  | error e' m =>
    rw [bind_of_error hx] at h
    cases h
    exact .inl rfl

end

/-! ## operations -/

/-- how an operation fails: how much of it is done, or none that it was not started, and the message
-/
structure Fault where
  written : Option Nat
  message : String

abbrev Files (π : Type) := HashMap π (List UInt8)

/-- the files, and how the next operations on them fail; those after the last entry do not -/
structure Drive (π : Type) where
  files : Files π
  faults : List (Option Fault)

abbrev FileM (π α : Type) := EStateM String (Drive π) α

section
variable {π : Type}

def Drive.nextFault (d : Drive π) : Option Fault := d.faults.head?.join

def Drive.leaving (d : Drive π) (files : Files π) : Drive π := ⟨files, d.faults.tail⟩

/-- the operation is over: it has returned, unless it was to fail -/
def Drive.finish {α : Type} (d : Drive π) (files : Files π) (a : α) :
    EStateM.Result String (Drive π) α :=
  match d.nextFault with
  | none => .ok a (d.leaving files)
  | some fault => .error fault.message (d.leaving files)

variable {α : Type}

theorem finish_ok {d d' : Drive π} {files : Files π} {a b : α}
    (h : d.finish files a = .ok b d') : d.nextFault = none ∧ d' = d.leaving files := by
  unfold Drive.finish at h
  cases hfl : d.nextFault with
  | none =>
    rw [hfl] at h
    cases h
    exact ⟨rfl, rfl⟩
  | some fault =>
    rw [hfl] at h
    cases h

theorem finish_error {d d' : Drive π} {files : Files π} {a : α} {e : String}
    (h : d.finish files a = .error e d') : d.nextFault ≠ none ∧ d' = d.leaving files := by
  unfold Drive.finish at h
  cases hfl : d.nextFault with
  | none =>
    rw [hfl] at h
    cases h
  | some fault =>
    rw [hfl] at h
    cases h
    exact ⟨Option.some_ne_none _, rfl⟩

def readDir {α : Type} (entries : List α) : FileM π (List α) := fun d => d.finish d.files entries

theorem readDir_quiet (files : Files π) (entries : List α) :
    readDir entries ⟨files, []⟩ = .ok entries ⟨files, []⟩ := rfl

/-- `fs::create_dir_all` -/
def createDir : FileM π Unit := fun d => d.finish d.files ()

theorem createDir_quiet (files : Files π) : createDir ⟨files, []⟩ = .ok () ⟨files, []⟩ := rfl

/-- what a write has left in a file, if it was opened -/
def leftBy (content : List UInt8) : Option Fault → Option (List UInt8)
  | none => some content
  | some fault => fault.written.map fun n => content.take n

variable [DecidableEq π]

def Files.written (files : Files π) (path : π) (content : List UInt8) (fault : Option Fault) :
    Files π :=
  match leftBy content fault with
  | some left => files.insert path left
  | none => files

/-- `fs::read` -/
def readFile (path : π) : FileM π (List UInt8) := fun d =>
  match d.files.lookup path with
  | some content => d.finish d.files content
  | none =>
    match d.nextFault with
    | some fault => .error fault.message (d.leaving d.files)
    | none => .error "No such file or directory (os error 2)" (d.leaving d.files)

/-- `fs::write` -/
def writeFile (path : π) (content : List UInt8) : FileM π Unit := fun d =>
  d.finish (d.files.written path content d.nextFault) ()

def removeFile (path : π) : FileM π Unit := fun d =>
  d.finish (if d.nextFault.isSome then d.files else d.files.erase path) ()

/-- `Path::exists`, which is false when the file cannot be looked at -/
def existsFile (path : π) : FileM π Bool := fun d =>
  .ok (d.nextFault.isNone && decide (path ∈ d.files)) (d.leaving d.files)

/-- `Path::exists` of the directory with these files; an empty one is as good as none -/
def existsDir (inside : π → Bool) : FileM π Bool := fun d =>
  .ok (d.nextFault.isNone && d.files.keys.any inside) (d.leaving d.files)

/-- `fs::remove_dir_all` of the directory with these files; a failure may come after some of them
are gone -/
def removeDir (inside : π → Bool) : FileM π Unit := fun d =>
  match d.nextFault with
  | none => .ok () (d.leaving (d.files.retain fun path _ => !inside path))
  | some fault =>
    let gone := (d.files.keys.filter inside).take (fault.written.getD 0)
    .error fault.message (d.leaving (gone.foldl (fun files path => files.erase path) d.files))

variable {fs : Files π} {path path' : π} {txt : List UInt8}

theorem readFile_ok {d d' : Drive π} (h : readFile path d = .ok txt d') :
    d.files.lookup path = some txt ∧ d'.files = d.files := by
  unfold readFile at h
  cases hfi : d.files.lookup path with
  | none =>
    rw [hfi] at h
    cases hfl : d.nextFault with
    | none | some fault =>
      simp only [hfl] at h
      cases h
  | some txt' =>
    rw [hfi] at h
    obtain ⟨hn, rfl⟩ := finish_ok h
    simp only [Drive.finish, hn] at h
    cases h
    exact ⟨rfl, rfl⟩

theorem readFile_error {d d' : Drive π} {e : String} (h : readFile path d = .error e d') :
    d'.files = d.files := by
  unfold readFile at h
  split at h
  · rw [(finish_error h).2]
    rfl
  · split at h <;> cases h <;> rfl

/-- **The file itself after a write.** -/
theorem lookup_written_self (fault : Option Fault) :
    (fs.written path txt fault).lookup path = (leftBy txt fault).or (fs.lookup path) := by
  unfold Files.written
  cases leftBy txt fault with
  | none => rfl
  | some left => exact AList.lookup_insert _

theorem lookup_written_ne (fault : Option Fault) (h : path' ≠ path) :
    (fs.written path txt fault).lookup path' = fs.lookup path' := by
  unfold Files.written
  cases leftBy txt fault with
  | none => rfl
  | some left => exact AList.lookup_insert_ne h

/-! ## a drive that does not fail -/

theorem readFile_quiet (h : fs.lookup path = some txt) :
    readFile path ⟨fs, []⟩ = .ok txt ⟨fs, []⟩ := by
  show (match fs.lookup path with
    | some txt => _
    | none => _) = _
  rw [h]
  rfl

theorem writeFile_quiet (fs : Files π) (path : π) (txt : List UInt8) :
    writeFile path txt ⟨fs, []⟩ = .ok () ⟨fs.insert path txt, []⟩ := rfl

theorem removeFile_quiet (fs : Files π) (path : π) :
    removeFile path ⟨fs, []⟩ = .ok () ⟨fs.erase path, []⟩ := rfl

theorem existsFile_quiet (fs : Files π) (path : π) :
    existsFile path ⟨fs, []⟩ = .ok (decide (path ∈ fs)) ⟨fs, []⟩ := rfl

end

/-! ## JSON texts -/

/-- how JSON documents are written as texts and read (`serde_json`), and what is said of a document
that does not fit -/
structure JsonText where
  print : Json → List UInt8
  parse : List UInt8 → Except String Json
  mismatch : Json → String

/-- A document that was written is read back. -/
def JsonText.Lawful (text : JsonText) : Prop := ∀ j, text.parse (text.print j) = .ok j

section
variable {π : Type} [DecidableEq π] {α : Type}

def saveJson (text : JsonText) (c : Codec α) (path : π) (x : α) : FileM π Unit :=
  match c.ser x with
  | .error message => throw message
  | .ok j => writeFile path (text.print j)

def jsonBytes (text : JsonText) (c : Codec α) (x : α) : List UInt8 :=
  match c.ser x with
  | .error _ => []
  | .ok j => text.print j

def decodeJson (text : JsonText) (c : Codec α) (content : List UInt8) : Except String α :=
  match text.parse content with
  | .error message => .error message
  | .ok j =>
    match c.de j with
    | some x => .ok x
    | none => .error (text.mismatch j)

def loadJson (text : JsonText) (c : Codec α) (path : π) : FileM π α := do
  let content ← readFile path
  ofExcept (decodeJson text c content)

variable {text : JsonText} {c : Codec α} {fs : Files π} {path : π} {x : α}

theorem saveJson_eq (h : c.RoundTrips x) :
    saveJson text c path x = writeFile path (jsonBytes text c x) := by
  obtain ⟨j, hsr, -⟩ := h
  unfold saveJson jsonBytes
  rw [hsr]

/-- **What is written is read back.** -/
theorem decodeJson_jsonBytes (ht : text.Lawful) (h : c.RoundTrips x) :
    decodeJson text c (jsonBytes text c x) = .ok x := by
  obtain ⟨j, hsr, hde⟩ := h
  unfold jsonBytes decodeJson
  rw [hsr, ht j]
  simp only [hde]

theorem loadJson_quiet {content : List UInt8} (h : fs.lookup path = some content) :
    loadJson text c path ⟨fs, []⟩ = ofExcept (decodeJson text c content) ⟨fs, []⟩ :=
  bind_of_ok (readFile_quiet h)

def Holds (text : JsonText) (c : Codec α) (P : α → Prop) (content : Option (List UInt8)) : Prop :=
  ∃ bytes x, content = some bytes ∧ decodeJson text c bytes = .ok x ∧ P x

variable {P : α → Prop} {d d' : Drive π}

theorem loadJson_ok (h : loadJson text c path d = .ok x d') :
    d'.files = d.files ∧
      ∃ content, d.files.lookup path = some content ∧ decodeJson text c content = .ok x := by
  obtain ⟨content, m, hr, h⟩ := of_bind_ok h
  obtain ⟨hfi, hfl⟩ := readFile_ok hr
  cases hdc : decodeJson text c content with
  | error msg =>
    rw [hdc] at h
    cases h
  | ok y =>
    rw [hdc] at h
    cases h
    exact ⟨hfl, content, hfi, hdc⟩

theorem loadJson_error {e : String} (h : loadJson text c path d = .error e d') :
    d'.files = d.files := by
  rcases of_bind_error h with h | ⟨content, m, hr, h⟩
  · exact readFile_error h
  · rw [← (readFile_ok hr).2]
    cases hdc : decodeJson text c content with
    | error msg =>
      rw [hdc] at h
      cases h
      rfl
    | ok y =>
      rw [hdc] at h
      cases h

theorem loads_iff_holds :
    (∃ y d, loadJson text c path ⟨fs, []⟩ = .ok y d ∧ P y) ↔ Holds text c P (fs.lookup path) := by
  constructor
  · rintro ⟨y, d, h, hy⟩
    obtain ⟨-, content, hfl, hdc⟩ := loadJson_ok h
    exact ⟨content, y, hfl, hdc, hy⟩
  · rintro ⟨content, y, hfl, hdc, hy⟩
    refine ⟨y, ⟨fs, []⟩, ?_, hy⟩
    rw [loadJson_quiet hfl, hdc]
    rfl

theorem ignore_writeFile (path : π) (content : List UInt8) (d : Drive π) :
    ignore (writeFile path content) d = d.leaving (d.files.written path content d.nextFault) := by
  unfold ignore writeFile Drive.finish
  cases d.nextFault with
  | none => rfl
  | some fault => rfl

/-- **What the file holds after a write**: the value, if nothing failed, or else by chance. -/
theorem holds_written_iff (ht : text.Lawful) (h : c.RoundTrips x) (hx : P x) :
    Holds text c P ((ignore (saveJson text c path x) d).files.lookup path) ↔
      d.nextFault = none ∨
        Holds text c P ((leftBy (jsonBytes text c x) d.nextFault).or (d.files.lookup path)) := by
  rw [saveJson_eq h, ignore_writeFile]
  show Holds text c P ((d.files.written _ _ _).lookup path) ↔ _
  rw [lookup_written_self]
  refine (or_iff_right_of_imp fun hn => ?_).symm
  rw [hn]
  exact ⟨_, x, rfl, decodeJson_jsonBytes ht h, hx⟩

end

/-! ## texts that can be read back -/

theorem countable_string : Countable String := by
  have hij : Function.Injective fun s : String => s.toList.map Char.toNat := fun s t h =>
    String.toList_inj.mp (List.map_injective_iff.mpr (fun _ _ => Char.toNat_inj.mp) h)
  exact hij.countable

theorem countable_size_le (n : Nat) : {j : Json | sizeOf j ≤ n}.Countable := by
  have := countable_string
  induction n with
  | zero =>
    refine Set.countable_empty.mono fun j hj => ?_
    cases j <;> simp at hj
  | succ n ih =>
    have := ih.to_subtype
    have hcv : {j : Json | sizeOf j ≤ n + 1} ⊆ {.null} ∪ Set.range Json.bool ∪
        Set.range Json.int ∪ Set.range (fun p : Int × Int => Json.float ⟨p.1, p.2⟩) ∪
        Set.range Json.str ∪
        Set.range (fun l : List {j : Json | sizeOf j ≤ n} => Json.arr (l.map Subtype.val)) ∪
        Set.range (fun l : List (String × {j : Json | sizeOf j ≤ n}) =>
          Json.obj (l.map fun p => (p.1, p.2.val))) := by
      intro j (hj : sizeOf j ≤ n + 1)
      cases j with
      | arr l =>
        have hle : ∀ x ∈ l, sizeOf x ≤ n := by
          intro x hx
          have hlt := List.sizeOf_lt_of_mem hx
          rw [Json.arr.sizeOf_spec] at hj
          omega
        exact .inl (.inr ⟨l.attach.map fun x => ⟨x.1, hle x.1 x.2⟩, by simp⟩)
      | obj l =>
        have hle : ∀ p ∈ l, sizeOf p.2 ≤ n := by
          intro p hp
          have hlt := List.sizeOf_lt_of_mem hp
          rw [Json.obj.sizeOf_spec] at hj
          rw [Prod.mk.sizeOf_spec] at hlt
          omega
        exact .inr ⟨l.attach.map fun p => (p.1.1, ⟨p.1.2, hle p.1 p.2⟩), by
          simp only [List.map_map]
          exact congrArg Json.obj l.attach_map_subtype_val⟩
      | _ => simp
    exact Set.Countable.mono hcv (by simp [Set.countable_range])

theorem JsonText.exists_lawful : ∃ text : JsonText, text.Lawful := by
  have : Countable Json := by
    refine Set.countable_univ_iff.mp ((Set.countable_iUnion countable_size_le).mono fun j _ => ?_)
    exact Set.mem_iUnion.mpr ⟨sizeOf j, Nat.le_refl (sizeOf j)⟩
  have : Nonempty Json := ⟨.null⟩
  obtain ⟨index, hix⟩ := exists_injective_nat Json
  -- a document is written as that many zeros
  refine ⟨⟨fun j => List.replicate (index j) 0, fun bs => .ok (Function.invFun index bs.length),
    fun _ => ""⟩, fun j => ?_⟩
  show Except.ok (Function.invFun index (List.replicate (index j) (0 : UInt8)).length) = _
  rw [List.length_replicate, Function.leftInverse_invFun hix j]

end Platform.Lib
