import TagScript.Proofs.Eval.Atomic
import TagScript.Proofs.Eval.Outcome
import TagScript.Proofs.Text.Utf8

set_option autoImplicit false

/-! # Files over a history of writes

A text is written to a file at the end of the old ones or in place of them. Over a history of writes
(`Writes`) a file holds what has been written since it was last truncated, and before that what it
held at the beginning if it never was (`Holds`). Line ends are unified only when a file is read, in
all of its text at once: a carriage return and a line feed that were written one after the other
are read as one line feed. -/

namespace TagScript

/-! ## Paths while a file is written -/

namespace Files

variable {fs : Files} {path : String} {place here next : Place} {bytes : List UInt8}

/-- A path, absolute or not, leads to a place where a file stands or may be made. -/
structure Writable (fs : Files) (path : String) (place : Place) : Prop where
  allowed : '\x00' ∉ path.toList
  leads : fs.resolve path = .ok place
  free : fs.get? place ≠ some .directory

/-- A path leads to one place only. -/
theorem Writable.place_eq {other : Place} (h : fs.Writable path place)
    (hother : fs.Writable path other) : place = other := by
  have hleads := hother.leads
  rw [h.leads] at hleads
  cases hleads
  rfl

theorem bytesAt_of_file (h : fs.get? place = some (.file bytes)) : fs.bytesAt place = bytes := by
  rw [bytesAt, h]

theorem bytesAt_of_none (h : fs.get? place = none) : fs.bytesAt place = [] := by
  rw [bytesAt, h]

/-- The working directory and those above it are not written. -/
theorem not_prefix_of_free (hfree : fs.get? place ≠ some .directory) :
    ¬ place <+: fs.directory := fun hprefix => hfree (if_pos hprefix)

theorem get?_put_self (hfree : fs.get? place ≠ some .directory) (bytes : List UInt8) :
    (fs.put place (.file bytes)).get? place = some (.file bytes) := by
  rw [get?_put fs place place _ (not_prefix_of_free hfree), if_pos rfl]

theorem get?_put_of_ne {other : Place} (hfree : fs.get? place ≠ some .directory)
    (hother : other ≠ place) (bytes : List UInt8) :
    (fs.put place (.file bytes)).get? other = fs.get? other := by
  rw [get?_put fs place other _ (not_prefix_of_free hfree), if_neg hother]

/-- Directories stay directories, and nothing else becomes one. -/
theorem get?_put_directory (hfree : fs.get? place ≠ some .directory) (bytes : List UInt8)
    (other : Place) :
    (fs.put place (.file bytes)).get? other = some .directory
      ↔ fs.get? other = some .directory := by
  by_cases hother : other = place
  · subst hother
    rw [get?_put_self hfree]
    simpa using hfree
  · rw [get?_put_of_ne hfree hother]

theorem get?_of_step {part : String} (h : fs.step here part = .ok next) :
    fs.get? here = some .directory := by
  unfold step at h
  split at h
  · cases h
  · cases h
  · assumption

theorem step_put (hfree : fs.get? place ≠ some .directory) (part : String) :
    (fs.put place (.file bytes)).step here part = .ok next
      ↔ fs.step here part = .ok next := by
  have hdirectory := get?_put_directory hfree bytes here
  by_cases h : fs.get? here = some .directory
  · -- from a directory, where a step leads does not depend on the files
    unfold step
    rw [h, hdirectory.2 h]
  · constructor
    · intro hstep
      exact absurd (hdirectory.1 (get?_of_step hstep)) h
    · intro hstep
      exact absurd (get?_of_step hstep) h

theorem walk_cons_eq_ok {part : String} {rest : List String} :
    fs.walk here (part :: rest) = .ok next
      ↔ ∃ middle, fs.step here part = .ok middle ∧ fs.walk middle rest = .ok next := by
  rw [walk]
  cases fs.step here part with
  | ok middle => simp
  | error e => simp

theorem walk_put (hfree : fs.get? place ≠ some .directory) (parts : List String) :
    (fs.put place (.file bytes)).walk here parts = .ok next
      ↔ fs.walk here parts = .ok next := by
  induction parts generalizing here with
  | nil => rfl
  | cons part rest ih => simp only [walk_cons_eq_ok, step_put hfree, ih]

/-- A path leads where it led before a file was written. -/
theorem resolve_put (hfree : fs.get? place ≠ some .directory) :
    (fs.put place (.file bytes)).resolve path = .ok next ↔ fs.resolve path = .ok next := by
  unfold resolve
  split
  · rfl
  split
  · rfl
  · exact walk_put hfree _

/-- What distinguishes later files from earlier ones is at most the file at one place. -/
structure SameBut (place : Place) (fs gs : Files) : Prop where
  entry : ∀ other, other ≠ place → gs.get? other = fs.get? other
  leads : ∀ path other, gs.resolve path = .ok other ↔ fs.resolve path = .ok other
  free : gs.get? place ≠ some .directory

theorem SameBut.refl (hfree : fs.get? place ≠ some .directory) : SameBut place fs fs where
  entry _ _ := rfl
  leads _ _ := Iff.rfl
  free := hfree

theorem SameBut.put {gs : Files} (h : SameBut place fs gs) :
    SameBut place fs (gs.put place (.file bytes)) where
  entry other hother := by
    rw [get?_put_of_ne h.free hother]
    exact h.entry other hother
  leads path other := (resolve_put h.free).trans (h.leads path other)
  free := by
    rw [get?_put_self h.free]
    simp

theorem SameBut.writable {gs : Files} (h : SameBut place fs gs) (hpath : fs.Writable path place) :
    gs.Writable path place where
  allowed := hpath.allowed
  leads := (h.leads path _).2 hpath.leads
  free := h.free

/-- A path that leads elsewhere is read as before. -/
theorem SameBut.readText_eq {gs : Files} (h : SameBut place fs gs)
    (helse : fs.resolve path ≠ .ok place) : Native.readText gs path = Native.readText fs path := by
  unfold Native.readText read
  cases hfs : fs.resolve path with
  | ok other =>
      have hother : other ≠ place := by
        rintro rfl
        exact helse hfs
      rw [(h.leads path other).2 hfs]
      simp only [h.entry other hother]
  | error e =>
      cases hgs : gs.resolve path with
      | ok other =>
          rw [(h.leads path other).1 hgs] at hfs
          cases hfs
      | error e' => rfl

end Files

/-! ## One write and one read -/

/-- The files after a text has been written at a place, at the end of the file or in place of what
    it held. -/
def Files.written (fs : Files) (place : Place) (contents : String) (append : Bool) : Files :=
  fs.put place (.file ((if append then fs.bytesAt place else []) ++ Utf8.encode contents.toList))

/-- The state with other files. -/
def State.withFiles (s : State) (files : Files) : State :=
  { s with store := { s.store with files } }

namespace Native

variable {path contents : String} {append : Value} {b : Bool} {s t : State}

theorem checkPath_eq_ok : checkPath path = .ok () ↔ '\x00' ∉ path.toList := by
  unfold checkPath
  split <;> simp_all

theorem target_eq_ok {fs : Files} {place : Place} :
    fs.target path = .ok place ↔ fs.resolve path = .ok place ∧ fs.get? place ≠ some .directory := by
  unfold Files.target
  cases fs.resolve path with
  | error e => simp
  | ok other =>
      by_cases hother : fs.get? other = some .directory
      · simp only [hother, if_true, reduceCtorEq, Except.ok.injEq, false_iff]
        rintro ⟨rfl, hfree⟩
        exact hfree hother
      · simp only [hother, if_false, Except.ok.injEq, iff_self_and]
        rintro rfl
        exact hother

theorem writeText_eq_ok {fs gs : Files} :
    writeText fs path contents b = .ok gs ↔
      ∃ place, fs.resolve path = .ok place ∧ fs.get? place ≠ some .directory ∧
        gs = fs.written place contents b := by
  have hwritten {place : Place} (hfree : fs.get? place ≠ some .directory) :
      (fs.opened place b).extended place (Utf8.encode contents.toList)
        = fs.written place contents b :=
    Files.extended_opened (Files.not_prefix_of_free hfree) b _
  constructor
  · intro h
    obtain ⟨place, hplace, rfl⟩ := except_map_ok h
    obtain ⟨hleads, hfree⟩ := target_eq_ok.1 (openable_eq_ok.1 hplace)
    exact ⟨place, hleads, hfree, hwritten hfree⟩
  · rintro ⟨place, hleads, hfree, rfl⟩
    rw [writeText, openable_eq_ok.2 (target_eq_ok.2 ⟨hleads, hfree⟩), Except.map, hwritten hfree]

theorem writeTo_eq_done (hb : append.isTruthy s.store.heap = .ok b) :
    writeTo path contents append s = .done () t ↔
      checkPath path = .ok () ∧
        ∃ files, writeText s.store.files path contents b = .ok files ∧ t = s.withFiles files := by
  unfold writeTo Run.onStore
  simp only [hb]
  constructor
  · intro h
    split at h
    · rename_i store hok
      obtain ⟨b', hb', hok⟩ := except_bind_ok hok
      cases hb'
      obtain ⟨_, hallowed, hok⟩ := except_bind_ok hok
      obtain ⟨files, hfiles, hok⟩ := except_bind_ok hok
      cases hok
      cases h
      exact ⟨hallowed, files, hfiles, rfl⟩
    · cases h
  · intro h
    obtain ⟨hallowed, files, hfiles, rfl⟩ := h
    simp only [hallowed, hfiles, bind, Except.bind]
    rfl

/-- A text is written if and only if its path is writable. -/
theorem call_writeFile_eq_done (hb : append.isTruthy s.store.heap = .ok b) :
    writeFile.call [.text path, .text contents, append] s = .done none t ↔
      ∃ place, s.store.files.Writable path place ∧
        t = s.withFiles (s.store.files.written place contents b) := by
  have hcall : writeFile.call [.text path, .text contents, append] s
      = (writeTo path contents append >>= fun _ => pure none) s := by
    show writeFile.perform [.text path, .text contents, append] s = _
    rw [perform_eq]
    rfl
  rw [hcall]
  constructor
  · intro h
    obtain ⟨_, u, hwrite, h⟩ := Run.bind_eq_done h
    cases h
    obtain ⟨hallowed, files, hfiles, rfl⟩ := (writeTo_eq_done hb).1 hwrite
    obtain ⟨place, hleads, hfree, rfl⟩ := writeText_eq_ok.1 hfiles
    exact ⟨place, ⟨checkPath_eq_ok.1 hallowed, hleads, hfree⟩, rfl⟩
  · intro h
    obtain ⟨place, hpath, rfl⟩ := h
    have hfiles : writeText s.store.files path contents b = .ok _ :=
      writeText_eq_ok.2 ⟨place, hpath.leads, hpath.free, rfl⟩
    have hwrite := (writeTo_eq_done hb).2 ⟨checkPath_eq_ok.2 hpath.allowed, _, hfiles, rfl⟩
    rw [Run.bind_done hwrite]
    rfl

theorem effect_readFile (path : String) (s : Store) :
    readFile.effect [.text path] s
      = (checkPath path >>= fun _ => readText s.files path).map fun text =>
          (some (.text text), s) := by
  show (checkPath path >>= fun _ => readText s.files path >>= fun text =>
    pure (some (Value.text text), s)) = _
  cases checkPath path with
  | error k => rfl
  | ok _ => cases readText s.files path <;> rfl

theorem call_readFile (path : String) (s : State) :
    readFile.call [.text path] s
      = match checkPath path >>= fun _ => readText s.store.files path with
        | .ok text => .done (some (.text text)) s
        | .error k => .halted k s := by
  have hcall : readFile.call [.text path] s = Run.onStore (readFile.effect [.text path]) s := by
    show readFile.perform [.text path] s = _
    rw [perform_eq]
    rfl
  rw [hcall, Run.onStore, effect_readFile]
  cases checkPath path >>= fun _ => readText s.store.files path <;> rfl

end Native

/-! ## Line ends -/

namespace Text

/-- Every carriage return of a text, together with the line feed after it if there is one, has been
    replaced by one line feed. -/
inductive Unified : List Char → List Char → Prop where
  | nil : Unified [] []
  | pair {s t : List Char} : Unified s t → Unified ('\r' :: '\n' :: s) ('\n' :: t)
  | lone {s t : List Char} : s.head? ≠ some '\n' → Unified s t → Unified ('\r' :: s) ('\n' :: t)
  | kept {c : Char} {s t : List Char} : c ≠ '\r' → Unified s t → Unified (c :: s) (c :: t)

theorem unified_unifyNewlines (s : List Char) : Unified s (unifyNewlines s) := by
  fun_induction unifyNewlines s with
  | case1 => exact .nil
  | case2 rest ih => exact .pair ih
  | case3 c rest hpair ih =>
      by_cases hc : c = '\r'
      · subst hc
        refine .lone ?_ ih
        intro hhead
        obtain ⟨rest, rfl⟩ := List.head?_eq_some_iff.1 hhead
        exact hpair rest rfl rfl
      · rw [if_neg hc]
        exact .kept hc ih

theorem not_mem_unifyNewlines (s : List Char) : '\r' ∉ unifyNewlines s := by
  fun_induction unifyNewlines s with
  | case1 => simp
  | case2 rest ih => simpa using ih
  | case3 c rest hpair ih =>
      simp only [List.mem_cons, not_or]
      refine ⟨?_, ih⟩
      split
      · decide
      · rename_i hc
        exact Ne.symm hc

theorem unifyNewlines_eq_self_iff {s : List Char} : unifyNewlines s = s ↔ '\r' ∉ s := by
  constructor
  · intro h
    rw [← h]
    exact not_mem_unifyNewlines s
  · exact unifyNewlines_of_not_mem s

end Text

/-! ## Histories of writes -/

/-- A text that has been written, and whether the old ones were left before it. -/
structure Written where
  contents : String
  append : Bool

/-- The texts that have been written, one after another. -/
def Written.joined (ws : List Written) : List Char :=
  ws.flatMap fun w => w.contents.toList

/-- From one state to another texts are written to a path. Between the calls the state may change
    but for the files. -/
inductive Writes (path : String) (s : State) : List Written → State → Prop where
  | start : Writes path s [] s
  | write {ws : List Written} {t u : State} {contents : String} {append : Value} {b : Bool} :
      Writes path s ws t → append.isTruthy t.store.heap = .ok b →
      Native.writeFile.call [.text path, .text contents, append] t = .done none u →
      Writes path s (ws ++ [⟨contents, b⟩]) u
  | between {ws : List Written} {t u : State} : Writes path s ws t →
      u.store.files = t.store.files → Writes path s ws u

/-- The text that a file holds after texts have been written to it: the last one that was not
    appended and those after it, or all of them after the text it held at the beginning. A file that
    was not there is made by the first of them. -/
inductive Holds (fs : Files) (place : Place) : List Written → List Char → Prop where
  | truncated {before after : List Written} {w : Written} : w.append = false →
      (∀ x ∈ after, x.append = true) →
      Holds fs place (before ++ w :: after) (w.contents.toList ++ Written.joined after)
  | appended {ws : List Written} {bytes : List UInt8} {old : List Char} :
      fs.get? place = some (.file bytes) → Utf8.decode bytes = .ok old →
      (∀ w ∈ ws, w.append = true) → Holds fs place ws (old ++ Written.joined ws)
  | created {ws : List Written} : fs.get? place = none → ws ≠ [] →
      (∀ w ∈ ws, w.append = true) → Holds fs place ws (Written.joined ws)

@[simp] theorem Written.joined_snoc (ws : List Written) (w : Written) :
    joined (ws ++ [w]) = joined ws ++ w.contents.toList := by
  simp [joined]

/-- What a file holds after one more text has been written. -/
theorem Holds.snoc {fs : Files} {place : Place} {ws : List Written} {w : Written}
    {text : List Char} (h : Holds fs place (ws ++ [w]) text) :
    text = w.contents.toList ∧ (w.append = false ∨ ws = [] ∧ fs.get? place = none) ∨
      w.append = true ∧ ∃ front, Holds fs place ws front ∧ text = front ++ w.contents.toList := by
  generalize hall : ws ++ [w] = all at h
  rcases h with ⟨hw, hafter⟩ | ⟨hfile, hold, hall'⟩ | ⟨hnone, -, hall'⟩
  · rename_i before after x
    -- the text written last is the one that truncated the file, or it came after that one
    rcases List.eq_nil_or_concat after with rfl | ⟨middle, y, rfl⟩
    · obtain ⟨rfl, hlast⟩ := List.append_inj' hall rfl
      cases hlast
      exact .inl ⟨by simp [Written.joined], .inl hw⟩
    · have hlast : ws ++ [w] = (before ++ x :: middle) ++ [y] := by simpa using hall
      obtain ⟨rfl, heq⟩ := List.append_inj' hlast rfl
      cases heq
      refine .inr ⟨hafter w (by simp), _, .truncated hw fun z hz => hafter z (by simp [hz]), ?_⟩
      simp
  · subst hall
    refine .inr ⟨hall' w (by simp), _, .appended hfile hold fun x hx => hall' x (by simp [hx]), ?_⟩
    simp
  · subst hall
    by_cases hws : ws = []
    · subst hws
      exact .inl ⟨by simp [Written.joined], .inr ⟨rfl, hnone⟩⟩
    · refine .inr ⟨hall' w (by simp), _, .created hnone hws fun x hx => hall' x (by simp [hx]), ?_⟩
      simp

namespace Writes

variable {path : String} {place : Place} {s t : State} {ws : List Written} {text : List Char}

theorem files_eq (h : Writes path s [] t) : t.store.files = s.store.files := by
  generalize hnil : [] = ws at h
  induction h with
  | start => rfl
  | write => simp at hnil
  | between _ hfiles ih => exact hfiles.trans (ih hnil)

/-- Nothing but the file at the place that the path leads to changes. -/
theorem sameBut (hpath : s.store.files.Writable path place) (h : Writes path s ws t) :
    Files.SameBut place s.store.files t.store.files := by
  induction h with
  | start => exact .refl hpath.free
  | write _ hb hcall ih =>
      obtain ⟨place', hpath', rfl⟩ := (Native.call_writeFile_eq_done hb).1 hcall
      obtain rfl := (ih.writable hpath).place_eq hpath'
      exact ih.put
  | between _ hfiles ih =>
      rw [hfiles]
      exact ih

/-- The bytes of the file are those of the text that the history tells. -/
theorem decode_eq (hpath : s.store.files.Writable path place) (h : Writes path s ws t)
    (hholds : Holds s.store.files place ws text) :
    ∃ bytes, t.store.files.get? place = some (.file bytes) ∧ Utf8.decode bytes = .ok text := by
  induction h generalizing text with
  | start =>
      generalize hnil : [] = ws at hholds
      rcases hholds with ⟨_, _⟩ | ⟨hfile, hold, -⟩ | ⟨-, hne, -⟩
      · simp at hnil
      · subst hnil
        exact ⟨_, hfile, by simpa [Written.joined] using hold⟩
      · exact absurd hnil.symm hne
  | write h hb hcall ih =>
      rename_i ws t u contents append b
      have hsame := h.sameBut hpath
      obtain ⟨place', hpath', rfl⟩ := (Native.call_writeFile_eq_done hb).1 hcall
      obtain rfl := (hsame.writable hpath).place_eq hpath'
      refine ⟨_, Files.get?_put_self hsame.free _, ?_⟩
      -- what was there before matters only to a text that was appended
      rcases hholds.snoc with ⟨rfl, rfl | ⟨rfl, hnone⟩⟩ | ⟨rfl, front, hfront, rfl⟩
      · exact Utf8.decodeFrom_encode 0 _
      · rw [← h.files_eq] at hnone
        rw [Files.bytesAt_of_none hnone, ite_self]
        exact Utf8.decodeFrom_encode 0 _
      · obtain ⟨bytes, hfile, hdecode⟩ := ih hfront
        rw [if_pos rfl, Files.bytesAt_of_file hfile]
        exact Utf8.decode_append_encode hdecode _
  | between _ hfiles ih =>
      rw [hfiles]
      exact ih hholds

end Writes

/-! ## Main result -/

/-- After texts have been written to a path, reading it gives the text that the history tells, with
    its line ends unified; that is the very text if and only if it has no carriage return. Nothing
    else is changed, neither what stands at another place nor what is read through a path that leads
    elsewhere. -/
theorem readFile_after_writes {path : String} {place : Place} {s t : State} {ws : List Written}
    (hpath : s.store.files.Writable path place) (h : Writes path s ws t) :
    (∀ text, Holds s.store.files place ws text → ∃ shown : String,
      Native.readFile.call [.text path] t = .done (some (.text shown)) t ∧
      Text.Unified text shown.toList ∧ (shown.toList = text ↔ '\r' ∉ text)) ∧
    (∀ other, other ≠ place → t.store.files.get? other = s.store.files.get? other) ∧
    ∀ other r, s.store.files.resolve other ≠ .ok place →
      (Native.readFile.call [.text other] t = .done r t ↔
        Native.readFile.call [.text other] s = .done r s) := by
  have hsame := h.sameBut hpath
  refine ⟨fun text hholds => ?_, hsame.entry, fun other r helse => ?_⟩
  · obtain ⟨bytes, hfile, hdecode⟩ := h.decode_eq hpath hholds
    have hread : Native.readText t.store.files path
        = .ok (String.ofList (Text.unifyNewlines text)) := by
      unfold Native.readText Files.read
      rw [(hsame.writable hpath).leads]
      simp only [hfile, fileText, hdecode, Except.map]
    refine ⟨String.ofList (Text.unifyNewlines text), ?_, ?_, ?_⟩
    · rw [Native.call_readFile, Native.checkPath_eq_ok.2 hpath.allowed, hread]
      rfl
    · rw [String.toList_ofList]
      exact Text.unified_unifyNewlines text
    · rw [String.toList_ofList]
      exact Text.unifyNewlines_eq_self_iff
  · rw [Native.call_readFile, Native.call_readFile, hsame.readText_eq helse]
    cases Native.checkPath other >>= fun _ => Native.readText s.store.files other with
    | ok read => simp
    | error k => simp

/-- A state in which the working directory is not the only one. -/
def besideTmp : State :=
  { store := { files := { entries := [(["tmp"], .directory)], directory := ["home"] } } }

/-- The carriage return at the end of one text and the line feed at the start of the next are read
    as one line feed; the file is made by the first text and truncated by the second. An absolute
    path leads to it, and it is not below the working directory. -/
theorem readFile_after_writes_acrossWrites :
    ∃ t, Writes "/tmp/log" besideTmp [⟨"old", true⟩, ⟨"one\r", false⟩, ⟨"\ntwo", true⟩] t ∧
      ∃ shown : String, Native.readFile.call [.text "/tmp/log"] t = .done (some (.text shown)) t ∧
        Text.Unified "one\r\ntwo".toList shown.toList ∧ shown ≠ "one\r\ntwo" := by
  have hpath : besideTmp.store.files.Writable "/tmp/log" ["tmp", "log"] :=
    ⟨by decide, rfl, by decide⟩
  have htrue : (Value.int 1).isTruthy {} = .ok true := rfl
  have hfalse : (Value.text "").isTruthy {} = .ok false := rfl
  have hfirst : Writes "/tmp/log" besideTmp [⟨"old", true⟩] _ := Writes.start.write htrue rfl
  have hsecond : Writes "/tmp/log" besideTmp [⟨"old", true⟩, ⟨"one\r", false⟩] _ :=
    hfirst.write hfalse rfl
  have hthird : Writes "/tmp/log" besideTmp [⟨"old", true⟩, ⟨"one\r", false⟩, ⟨"\ntwo", true⟩] _ :=
    hsecond.write htrue rfl
  have hholds : Holds besideTmp.store.files ["tmp", "log"]
      ([⟨"old", true⟩] ++ ⟨"one\r", false⟩ :: [⟨"\ntwo", true⟩]) "one\r\ntwo".toList :=
    .truncated rfl (by simp)
  obtain ⟨shown, hread, hunified, hsame⟩ := (readFile_after_writes hpath hthird).1 _ hholds
  refine ⟨_, hthird, ?_⟩
  refine ⟨shown, hread, hunified, ?_⟩
  intro heq
  exact hsame.1 (congrArg String.toList heq) (by decide)

end TagScript
