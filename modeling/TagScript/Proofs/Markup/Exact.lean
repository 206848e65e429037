import TagScript.Markup.Report
import TagScript.Proofs.Markup.Complete
import TagScript.Proofs.Markup.Sound

set_option autoImplicit false

/-! # Reading is exact

The reader of documents and fragments finds a tree if and only if the grammar derives it
(`readPrepared_eq_ok`, `parse_eq_ok`). As the reader gives one answer, the grammar derives one tree
at most (`Derives.unique`). -/

namespace TagScript.Markup

open Cursor (past)

variable {file : String}

/-! ## What stands around an element -/

theorem Misc.length_pos {s : List Char} (h : Misc s) : 0 < s.length := by
  cases h with
  | comment h =>
      cases h
      simp
  | declaration => simp
  | doctype =>
      simp only [List.length_append, List.length_singleton]
      omega

theorem skipMisc_sound (fuel : Nat) (before rest : List Char) :
    ∃ s r, rest = s ++ r ∧ skipMisc fuel (past before rest) = past (before ++ s) r ∧
      ∀ gap, IsLayout gap → Surroundings (s ++ gap) := by
  induction fuel generalizing before rest with
  | zero => exact ⟨[], rest, rfl, by simp [skipMisc], fun _ => .layout⟩
  | succ fuel ih =>
      unfold skipMisc
      split
      · rename_i c hmisc
        obtain ⟨gap, s, r, rfl, hgap, hs, rfl⟩ := misc?_past.1 hmisc
        obtain ⟨t, r, rfl, hskip, ht⟩ := ih (before ++ gap ++ s) r
        refine ⟨gap ++ s ++ t, r, by simp, ?_, fun trail htrail => ?_⟩
        · rw [hskip, List.append_assoc before, List.append_assoc before]
        · rw [List.append_assoc]
          exact .misc hgap hs (ht trail htrail)
      · exact ⟨[], rest, rfl, by simp, fun _ => .layout⟩

/-- The reader passes over all that may stand around an element, and leaves layout at its end. -/
theorem Surroundings.skipMisc_past {s : List Char} (h : Surroundings s) {fuel : Nat}
    (hfuel : s.length ≤ fuel) {before r : List Char} (hlayout : StartsWithout Text.isLayout r)
    (hmark : ¬ ['<', '!'] <+: r) (hquery : ¬ ['<', '?'] <+: r) :
    ∃ skipped gap, s = skipped ++ gap ∧ IsLayout gap ∧
      skipMisc fuel (past before (s ++ r)) = past (before ++ skipped) (gap ++ r) := by
  induction h generalizing fuel before with
  | @layout s hs =>
      refine ⟨[], s, rfl, hs, ?_⟩
      rw [List.append_nil]
      cases fuel with
      | zero => rfl
      | succ fuel => rw [skipMisc, misc?_eq_none hs hlayout hmark hquery]
  | @misc gap s rest hgap hs _ ih =>
      have hpos := hs.length_pos
      simp only [List.length_append] at hfuel
      obtain ⟨fuel, rfl⟩ : ∃ less, fuel = less + 1 := ⟨fuel - 1, by omega⟩
      have hshort : rest.length ≤ fuel := by omega
      obtain ⟨skipped, trail, rfl, htrail, hskip⟩ := @ih fuel hshort (before ++ gap ++ s)
      refine ⟨gap ++ s ++ skipped, trail, by simp, htrail, ?_⟩
      rw [List.append_assoc, skipMisc, misc?_past.2 ⟨gap, s, _, rfl, hgap, hs, rfl⟩]
      simp only [hskip]
      rw [List.append_assoc before, List.append_assoc before]

theorem Mode.skip_sound (mode : Mode) (before rest : List Char) :
    ∃ s r, rest = s ++ r ∧ mode.skip (past before rest) = past (before ++ s) r ∧
      ∀ gap, IsLayout gap → mode.Around (s ++ gap) := by
  cases mode with
  | document => exact skipMisc_sound _ before rest
  | fragment => exact ⟨[], rest, rfl, by simp [Mode.skip], fun _ => id⟩

theorem Mode.skip_complete {mode : Mode} {s before r : List Char} (h : mode.Around s)
    (hlayout : StartsWithout Text.isLayout r) (hmark : ¬ ['<', '!'] <+: r)
    (hquery : ¬ ['<', '?'] <+: r) :
    ∃ skipped gap, s = skipped ++ gap ∧ IsLayout gap ∧
      mode.skip (past before (s ++ r)) = past (before ++ skipped) (gap ++ r) := by
  cases mode with
  | document =>
      refine Surroundings.skipMisc_past h ?_ hlayout hmark hquery
      rw [Cursor.rest_past, List.length_append]
      omega
  | fragment => exact ⟨[], s, rfl, h, by simp [Mode.skip]⟩

/-! ## Documents and fragments -/

theorem endOfText_eq_ok {root t : Node} {before rest : List Char} :
    endOfText root (past before rest) = .ok t ↔ root = t ∧ IsLayout rest := by
  obtain ⟨gap, r, rfl, hgap, hlayout, hskip⟩ := exists_layout rest
  have hrest : IsLayout (gap ++ r) ↔ r = [] := by
    constructor
    · intro h
      cases r with
      | nil => rfl
      | cons x r =>
          have hx := h x (List.mem_append_right gap List.mem_cons_self)
          rw [hlayout x rfl] at hx
          cases hx
    · rintro rfl
      rwa [List.append_nil]
  unfold endOfText
  simp only [hskip, Cursor.rest_past, hrest]
  split <;> simp [*]

theorem readPrepared_eq_ok {mode : Mode} {text : List Char} {root : Node} :
    readPrepared mode file text = .ok root ↔ Derives mode file text root := by
  unfold readPrepared
  rw [Cursor.start_eq_past]
  constructor
  · intro h
    obtain ⟨before, rest, rfl, hskip, hbefore⟩ := mode.skip_sound [] text
    rw [hskip] at h
    split at h
    · cases h
    · rename_i n c hread
      obtain ⟨gap, s, r, rfl, hgap, hs, rfl⟩ := element_sound _ hread
      obtain ⟨after, r, rfl, hskip, hafter⟩ := mode.skip_sound ([] ++ before ++ gap ++ s) r
      rw [hskip] at h
      obtain ⟨rfl, hr⟩ := endOfText_eq_ok.1 h
      have hall := Derives.mk (hbefore gap hgap) hs (hafter r hr)
      simpa using hall
  · rintro @⟨before, s, after, root, hbefore, hs, hafter⟩
    -- an element starts unlike all that may stand before it, so the reader stops there
    obtain ⟨x, tail, hstart, hx⟩ := hs.starts
    obtain ⟨_, _, hmark, hquery, _⟩ := isNameStart_ne hx
    obtain ⟨skipped, gap, rfl, hgap, hskip⟩ : ∃ skipped gap, before = skipped ++ gap ∧
        IsLayout gap ∧ mode.skip (past [] (before ++ (s ++ after)))
          = past skipped (gap ++ (s ++ after)) := by
      refine Mode.skip_complete hbefore ?_ ?_ ?_
      · rw [hstart]
        exact .cons (by decide) _
      · simp [hstart, Ne.symm hmark]
      · simp [hstart, Ne.symm hquery]
    have hbound : s.length < (skipped ++ gap ++ s ++ after).length + 1 := by
      simp only [List.length_append]
      omega
    have hread := element_complete _ hgap hs hbound after
    obtain ⟨_, trail, rfl, htrail, hskipAfter⟩ : ∃ skipped' trail, after = skipped' ++ trail ∧
        IsLayout trail ∧ mode.skip (past (skipped ++ gap ++ s) (after ++ []))
          = past (skipped ++ gap ++ s ++ skipped') (trail ++ []) :=
      Mode.skip_complete hafter .nil (by simp) (by simp)
    rw [List.append_nil, List.append_nil] at hskipAfter
    rw [List.append_assoc (skipped ++ gap), hskip, ← List.append_assoc (skipped ++ gap), hread]
    simp only [hskipAfter]
    exact endOfText_eq_ok.2 ⟨rfl, htrail⟩

/-- The grammar derives one tree at most. -/
theorem Derives.unique {mode : Mode} {text : List Char} {root other : Node}
    (hroot : Derives mode file text root) (hother : Derives mode file text other) :
    root = other := by
  have hsame := (readPrepared_eq_ok.2 hroot).symm.trans (readPrepared_eq_ok.2 hother)
  exact Except.ok.inj hsame

/-- A source is read as a tree if and only if the grammar derives it from the prepared text. -/
theorem parse_eq_ok {mode : Mode} {text : String} {root : Node} :
    parse mode file text = .ok root ↔ Derives mode file (mode.prepare text.toList) root := by
  rw [← readPrepared_eq_ok]
  show (read mode file text).mapError _ = .ok root ↔ read mode file text = .ok root
  cases read mode file text with
  | error stop => exact ⟨nofun, nofun⟩
  | ok n => exact ⟨fun h => by cases h; rfl, fun h => by cases h; rfl⟩

/-! ## Failures -/

section Failures

variable {mode : Mode} {text : String}

theorem Stop.failure_eq_crashed {stop : Stop} {cause : Crash} :
    stop.failure mode file text = .crashed cause ↔ stop.cause = .entity (.crash cause) := by
  unfold Stop.failure
  constructor
  · intro h
    split at h
    · rename_i hcause
      cases h
      exact hcause
    · cases h
  · intro h
    rw [h]

theorem Stop.failure_eq_refused {stop : Stop} {e : ParseError} :
    stop.failure mode file text = .refused e
      ↔ (∀ cause, stop.cause ≠ .entity (.crash cause)) ∧ stop.report mode file text = e := by
  constructor
  · intro h
    refine ⟨fun cause hcause => ?_, ?_⟩
    · rw [Stop.failure_eq_crashed.2 hcause] at h
      cases h
    · unfold Stop.failure at h
      split at h
      · cases h
      · exact Failure.refused.inj h
  · rintro ⟨hcause, rfl⟩
    unfold Stop.failure
    split
    · rename_i cause h
      exact absurd h (hcause cause)
    · rfl

theorem parse_eq_error {failure : Failure} :
    parse mode file text = .error failure
      ↔ ∃ stop, read mode file text = .error stop ∧ stop.failure mode file text = failure := by
  unfold parse
  cases read mode file text with
  | ok root => exact ⟨nofun, fun ⟨_, h, _⟩ => nomatch h⟩
  | error stop =>
      constructor
      · rintro ⟨⟩
        exact ⟨stop, rfl, rfl⟩
      · rintro ⟨_, ⟨⟩, rfl⟩
        rfl

/-- A source is refused with the report of a stop that is not a crash. -/
theorem parse_eq_refused {e : ParseError} :
    parse mode file text = .error (.refused e)
      ↔ ∃ stop, read mode file text = .error stop ∧
        (∀ cause, stop.cause ≠ .entity (.crash cause)) ∧ stop.report mode file text = e := by
  simp only [parse_eq_error, Stop.failure_eq_refused]

/-- Reading a source crashes where decoding a value does. -/
theorem parse_eq_crashed {cause : Crash} :
    parse mode file text = .error (.crashed cause)
      ↔ ∃ stop, read mode file text = .error stop ∧ stop.cause = .entity (.crash cause) := by
  simp only [parse_eq_error, Stop.failure_eq_crashed]

end Failures

end TagScript.Markup
