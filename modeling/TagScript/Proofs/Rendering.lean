import TagScript.Eval.Run
import TagScript.Proofs.Except
import TagScript.Value.Format
import Mathlib.Data.Finset.Basic
import Mathlib.Data.Finset.Dedup

set_option autoImplicit false

/-! # The text of shared and cyclic lists

The items of a list may be lists again, the same one several times, or one that encloses them. The
text of a value goes by the path of the lists that enclose an occurrence (`Shown`). It can be found
with one set that holds the lists being rendered (`render`): a list is added when it is entered and
taken out when it is left, so that at every occurrence the set holds what is on its path. A list
that is entered is one fewer to enter, so both come to an end in every heap. -/

namespace TagScript

/-! ## The lists that can still be entered -/

namespace Heap

/-- The lists of the heap that are not on a path. -/
def off (h : Heap) (path : List Nat) : List Nat :=
  (List.range h.lists.size).filter fun id => !path.contains id

theorem length_off_nil (h : Heap) : (h.off []).length = h.lists.size := by
  have hall : h.off [] = List.range h.lists.size := List.filter_eq_self.2 fun _ _ => rfl
  rw [hall, List.length_range]

theorem length_off_le (h : Heap) (path : List Nat) : (h.off path).length ≤ h.lists.size := by
  have hle := List.length_filter_le (fun id => !path.contains id) (List.range h.lists.size)
  rwa [List.length_range] at hle

/-- A list that is entered is one fewer to enter. -/
theorem length_off_cons {h : Heap} {path : List Nat} {id : Nat} (hid : id < h.lists.size)
    (hpath : path.contains id = false) : (h.off (id :: path)).length < (h.off path).length := by
  have hoff : h.off (id :: path) = (h.off path).filter fun other => !(other == id) := by
    simp only [off, List.filter_filter, List.contains_cons, Bool.not_or]
  rw [hoff, List.length_filter_lt_length_iff_exists]
  refine ⟨id, ?_, by simp⟩
  exact List.mem_filter.2 ⟨List.mem_range.2 hid, by rw [hpath]; rfl⟩

/-- A list that has items is one of the heap, so there is room for what it encloses. -/
theorem length_off_item {h : Heap} {path : List Nat} {id room : Nat} {w : Value}
    (hroom : (h.off path).length < room + 1) (hpath : id ∉ path) (hw : w ∈ h.items id) :
    (h.off (id :: path)).length < room := by
  have hid : id < h.lists.size := by
    by_contra hout
    simp [items, Array.getElem?_eq_none (Nat.le_of_not_lt hout)] at hw
  have hcontains : path.contains id = false := by simpa using hpath
  have hlt := length_off_cons hid hcontains
  omega

end Heap

namespace Value

/-! ## What a value is shown as -/

/-- The text of a value that is shown on its own, without regard to the heap. -/
def ownText? (nested : Bool) : Value → Option String
  | .int n => some (integerText n)
  | .real x => some (String.ofList x.format)
  | .text s => some (if nested then "\"" ++ s ++ "\"" else s)
  | .missingText => some (if nested then "\"None\"" else "None")
  | .closure f => some ("<function " ++ f.name ++ ">")
  | .native f => some ("<native " ++ f.name ++ ">")
  | .other tag => some ("<" ++ tag ++ ">")
  | .list _ | .absent => none

/-- The text of a list whose items have the given texts. -/
def bracketed (texts : List String) : String := "[" ++ ", ".intercalate texts ++ "]"

/-- The text of an occurrence of a value inside the lists of `path`. A list is shown as `[...]` if
    it is one of those, and otherwise item by item in order. -/
inductive Shown (h : Heap) : (path : List Nat) → (nested : Bool) → Value → String → Prop where
  | own {path : List Nat} {nested : Bool} {v : Value} {text : String} :
      ownText? nested v = some text → Shown h path nested v text
  | enclosed {path : List Nat} {nested : Bool} {id : Nat} : id ∈ path →
      Shown h path nested (.list id) "[...]"
  | full {path : List Nat} {nested : Bool} {id : Nat} {texts : List String} : id ∉ path →
      texts.length = (h.items id).size →
      (∀ (k : Nat) (v : Value) (text : String), (h.items id)[k]? = some v →
        texts[k]? = some text → Shown h (id :: path) true v text) →
      Shown h path nested (.list id) (bracketed texts)

/-- The plain recursive text of a value, which knows no path. -/
inductive ShownPlain (h : Heap) : (nested : Bool) → Value → String → Prop where
  | own {nested : Bool} {v : Value} {text : String} :
      ownText? nested v = some text → ShownPlain h nested v text
  | full {nested : Bool} {id : Nat} {texts : List String} :
      texts.length = (h.items id).size →
      (∀ (k : Nat) (v : Value) (text : String), (h.items id)[k]? = some v →
        texts[k]? = some text → ShownPlain h true v text) →
      ShownPlain h nested (.list id) (bracketed texts)

/-- What is reached from a value through the items of lists. -/
inductive Within (h : Heap) (v : Value) : Value → Prop where
  | self : Within h v v
  | item {id : Nat} {w : Value} : Within h v (.list id) → w ∈ h.items id → Within h v w

/-- A list that is reached from one of its own items. -/
def InsideItself (h : Heap) (id : Nat) : Prop := ∃ w ∈ h.items id, Within h w (.list id)

end Value

/-! ## One set for the lists being rendered -/

/-- The outcome that a result has in a state. -/
def Outcome.ofResult {σ α : Type} (result : Except Halt α) (s : σ) : Outcome σ α :=
  match result with
  | .ok a => .done a s
  | .error e => .halted e s

namespace Value

/-- The texts of several values, each rendered with the set that the one before it has left. -/
def renderAll (render : Value → Finset Nat → Outcome (Finset Nat) String) :
    List Value → Finset Nat → Outcome (Finset Nat) (List String)
  | [], rendering => .done [] rendering
  | v :: rest, rendering =>
    match render v rendering with
    | .halted e rendering => .halted e rendering
    | .outOfFuel => .outOfFuel
    | .done shown rendering =>
      match renderAll render rest rendering with
      | .halted e rendering => .halted e rendering
      | .outOfFuel => .outOfFuel
      | .done texts rendering => .done (shown :: texts) rendering

/-- The text of a value, with a set of the lists being rendered that every list is added to when it
    is entered, and taken out of when it is left, also if an item cannot be shown. -/
def render (h : Heap) :
    (fuel : Nat) → (nested : Bool) → Value → Finset Nat → Outcome (Finset Nat) String
  | 0, _, _, _ => .outOfFuel
  | fuel + 1, nested, v, rendering =>
    match v with
    | .list id =>
      if id ∈ rendering then .done "[...]" rendering
      else
        match renderAll (render h fuel true) (h.items id).toList (insert id rendering) with
        | .halted e rendering => .halted e (rendering.erase id)
        | .outOfFuel => .outOfFuel
        | .done texts rendering => .done (bracketed texts) (rendering.erase id)
    | v =>
      match ownText? nested v with
      | some shown => .done shown rendering
      | none => .halted (.crash .absentInspected) rendering

/-! ## The texts of several values -/

theorem formatAll_congr {f g : Value → Except Halt String} {vs : List Value}
    (h : ∀ v ∈ vs, f v = g v) : formatAll f vs = formatAll g vs := by
  induction vs with
  | nil => rfl
  | cons v rest ih =>
      unfold formatAll
      rw [h v List.mem_cons_self, ih fun x hx => h x (List.mem_cons_of_mem v hx)]

theorem formatAll_eq_ok {f : Value → Except Halt String} {vs : List Value} {texts : List String} :
    formatAll f vs = .ok texts ↔ texts.length = vs.length ∧
      ∀ (k : Nat) (v : Value) (text : String), vs[k]? = some v → texts[k]? = some text →
        f v = .ok text := by
  induction vs generalizing texts with
  | nil =>
      rw [formatAll, Except.ok.injEq, List.length_nil, List.length_eq_zero_iff]
      constructor
      · rintro rfl
        exact ⟨rfl, by simp⟩
      · rintro ⟨rfl, -⟩
        rfl
  | cons v rest ih =>
      constructor
      · intro h
        rw [formatAll] at h
        split at h
        · cases h
        · rename_i text htext
          obtain ⟨others, hrest, rfl⟩ := except_map_ok h
          obtain ⟨hlength, hothers⟩ := ih.1 hrest
          refine ⟨by simp [hlength], fun k w shown hw hshown => ?_⟩
          rcases k with _ | k
          · obtain rfl := Option.some.inj hw
            obtain rfl := Option.some.inj hshown
            exact htext
          · exact hothers k w shown hw hshown
      · rintro ⟨hlength, hall⟩
        rcases texts with _ | ⟨text, others⟩
        · simp at hlength
        · have hothers : formatAll f rest = .ok others :=
            ih.2 ⟨by simpa using hlength, fun k w shown => hall (k + 1) w shown⟩
          simp only [formatAll, hall 0 v text rfl rfl, hothers, Except.map]

theorem formatAll_ok {f : Value → Except Halt String} {vs : List Value}
    (h : ∀ v ∈ vs, ∃ text, f v = .ok text) : ∃ texts, formatAll f vs = .ok texts := by
  induction vs with
  | nil => exact ⟨[], rfl⟩
  | cons v rest ih =>
      obtain ⟨text, htext⟩ := h v List.mem_cons_self
      obtain ⟨texts, htexts⟩ := ih fun x hx => h x (List.mem_cons_of_mem v hx)
      exact ⟨text :: texts, by simp only [formatAll, htext, htexts, Except.map]⟩

theorem formatAll_error {f : Value → Except Halt String} {vs : List Value} {e : Halt}
    (h : formatAll f vs = .error e) : ∃ v ∈ vs, f v = .error e := by
  induction vs with
  | nil => cases h
  | cons v rest ih =>
      rw [formatAll] at h
      split at h
      · rename_i hv
        cases h
        exact ⟨v, List.mem_cons_self, hv⟩
      · obtain ⟨w, hw, hf⟩ := ih (except_map_error h)
        exact ⟨w, List.mem_cons_of_mem v hw, hf⟩

/-- If every value leaves the set as it was, so do all of them. -/
theorem renderAll_eq {render : Value → Finset Nat → Outcome (Finset Nat) String}
    {f : Value → Except Halt String} {rendering : Finset Nat} {vs : List Value}
    (h : ∀ v ∈ vs, render v rendering = .ofResult (f v) rendering) :
    renderAll render vs rendering = .ofResult (formatAll f vs) rendering := by
  induction vs with
  | nil => rfl
  | cons v rest ih =>
      have hrest := ih fun x hx => h x (List.mem_cons_of_mem v hx)
      rw [renderAll, h v List.mem_cons_self, formatAll]
      cases f v with
      | error e => rfl
      | ok text =>
          simp only [Outcome.ofResult, hrest]
          cases formatAll f rest <;> rfl

/-! ## The text by the path -/

variable {h : Heap} {path : List Nat} {nested : Bool} {v : Value}

/-- The four ways to show an occurrence, the one without a text among them. -/
theorem enclosed_or_full_or_absent_or_own (path : List Nat) (nested : Bool) (v : Value) :
    (∃ id, v = .list id ∧ id ∈ path) ∨ (∃ id, v = .list id ∧ id ∉ path) ∨ v = .absent ∨
      ∃ text, ownText? nested v = some text := by
  cases v with
  | list id =>
      by_cases hid : id ∈ path
      · exact .inl ⟨id, rfl, hid⟩
      · exact .inr (.inl ⟨id, rfl, hid⟩)
  | absent => exact .inr (.inr (.inl rfl))
  | _ => exact .inr (.inr (.inr ⟨_, rfl⟩))

theorem formatWithin_of_own {text : String} (room : Nat) (htext : ownText? nested v = some text) :
    formatWithin h room path nested v = .ok text := by
  cases v with
  | list | absent => cases htext
  | _ =>
      obtain rfl := Option.some.inj htext
      unfold formatWithin
      rfl

theorem formatWithin_absent (room : Nat) :
    formatWithin h room path nested .absent = .error (.crash .absentInspected) := by
  unfold formatWithin
  rfl

theorem formatWithin_enclosed {id : Nat} (room : Nat) (hid : id ∈ path) :
    formatWithin h room path nested (.list id) = .ok "[...]" := by
  rcases room with _ | room
  · rfl
  · rw [formatWithin, if_pos (by simpa using hid)]

theorem formatWithin_full {id : Nat} (room : Nat) (hid : id ∉ path) :
    formatWithin h (room + 1) path nested (.list id)
      = (formatAll (formatWithin h room (id :: path) true) (h.items id).toList).map bracketed := by
  rw [formatWithin, if_neg (by simpa using hid)]
  rfl

/-- Only the absent value has no text. -/
theorem formatWithin_error {room : Nat} {e : Halt}
    (he : formatWithin h room path nested v = .error e) : e = .crash .absentInspected := by
  induction room generalizing path nested v with
  | zero =>
      rcases enclosed_or_full_or_absent_or_own path nested v with
        ⟨id, rfl, -⟩ | ⟨id, rfl, -⟩ | rfl | ⟨own, hown⟩
      · cases he
      · cases he
      · rw [formatWithin_absent] at he
        exact (Except.error.inj he).symm
      · rw [formatWithin_of_own _ hown] at he
        cases he
  | succ room ih =>
      rcases enclosed_or_full_or_absent_or_own path nested v with
        ⟨id, rfl, hid⟩ | ⟨id, rfl, hid⟩ | rfl | ⟨own, hown⟩
      · rw [formatWithin_enclosed _ hid] at he
        cases he
      · rw [formatWithin_full _ hid] at he
        obtain ⟨w, -, hw⟩ := formatAll_error (except_map_error he)
        exact ih hw
      · rw [formatWithin_absent] at he
        exact (Except.error.inj he).symm
      · rw [formatWithin_of_own _ hown] at he
        cases he

/-- With room for the lists that are not on the path, the text is the one by the path. -/
theorem formatWithin_eq_ok {room : Nat} (hroom : (h.off path).length < room) {text : String} :
    formatWithin h room path nested v = .ok text ↔ Shown h path nested v text := by
  constructor
  · intro htext
    induction room generalizing path nested v text with
    | zero => omega
    | succ room ih =>
        rcases enclosed_or_full_or_absent_or_own path nested v with
          ⟨id, rfl, hid⟩ | ⟨id, rfl, hid⟩ | rfl | ⟨own, hown⟩
        · rw [formatWithin_enclosed _ hid] at htext
          obtain rfl := Except.ok.inj htext
          exact .enclosed hid
        · rw [formatWithin_full _ hid] at htext
          obtain ⟨texts, hitems, rfl⟩ := except_map_ok htext
          obtain ⟨hlength, hall⟩ := formatAll_eq_ok.1 hitems
          refine .full hid (by simpa using hlength) fun k w shown hw hshown => ?_
          exact ih (Heap.length_off_item hroom hid (Array.mem_of_getElem? hw))
            (hall k w shown (by simpa using hw) hshown)
        · rw [formatWithin_absent] at htext
          cases htext
        · rw [formatWithin_of_own _ hown] at htext
          obtain rfl := Except.ok.inj htext
          exact .own hown
  · intro hshown
    induction hshown generalizing room with
    | own hown => exact formatWithin_of_own _ hown
    | enclosed hid => exact formatWithin_enclosed _ hid
    | @full path nested id texts hid hlength _ ih =>
        obtain ⟨room, rfl⟩ : ∃ k, room = k + 1 := ⟨room - 1, by omega⟩
        have hitems : formatAll (formatWithin h room (id :: path) true) (h.items id).toList
            = .ok texts := by
          refine formatAll_eq_ok.2 ⟨by simpa using hlength, fun k w shown hw htext => ?_⟩
          have hw' : (h.items id)[k]? = some w := by simpa using hw
          exact ih k w shown hw' htext (Heap.length_off_item hroom hid (Array.mem_of_getElem? hw'))
        rw [formatWithin_full _ hid, hitems]
        rfl

/-! ## Room -/

/-- Room for the lists that are not on the path is room enough. -/
theorem formatWithin_of_room (h : Heap) {room room' : Nat} {path : List Nat} {nested : Bool}
    {v : Value} (hroom : (h.off path).length < room) (hroom' : (h.off path).length < room') :
    formatWithin h room path nested v = formatWithin h room' path nested v := by
  induction room generalizing room' path nested v with
  | zero => omega
  | succ room ih =>
      obtain ⟨room', rfl⟩ : ∃ k, room' = k + 1 := ⟨room' - 1, by omega⟩
      rcases enclosed_or_full_or_absent_or_own path nested v with
        ⟨id, rfl, hid⟩ | ⟨id, rfl, hid⟩ | rfl | ⟨own, hown⟩
      · rw [formatWithin_enclosed _ hid, formatWithin_enclosed _ hid]
      · rw [formatWithin_full _ hid, formatWithin_full _ hid]
        refine congrArg _ (formatAll_congr fun w hw => ?_)
        have hmem := Array.mem_toList_iff.1 hw
        exact ih (Heap.length_off_item hroom hid hmem) (Heap.length_off_item hroom' hid hmem)
      · rw [formatWithin_absent, formatWithin_absent]
      · rw [formatWithin_of_own _ hown, formatWithin_of_own _ hown]

/-- Printing never needs more room than it has. -/
theorem format_of_room (h : Heap) (v : Value) (nested : Bool) {room : Nat}
    (hroom : h.lists.size < room) : formatWithin h room [] nested v = v.format h nested := by
  rw [← h.length_off_nil] at hroom
  exact formatWithin_of_room h hroom (by rw [h.length_off_nil]; omega)

theorem Within.of_item {id : Nat} {w x : Value} (hw : w ∈ h.items id) (hx : Within h w x) :
    Within h (.list id) x := by
  induction hx with
  | self => exact .item .self hw
  | item _ hmem ih => exact .item ih hmem

/-- A value that does not lead to the absent one has a text. -/
theorem formatWithin_ok_of_within (room : Nat) (hv : ∀ w, Within h v w → w ≠ .absent) :
    ∃ text, formatWithin h room path nested v = .ok text := by
  induction room generalizing path nested v with
  | zero =>
      rcases enclosed_or_full_or_absent_or_own path nested v with
        ⟨id, rfl, -⟩ | ⟨id, rfl, -⟩ | rfl | ⟨own, hown⟩
      · exact ⟨_, rfl⟩
      · exact ⟨_, rfl⟩
      · exact absurd rfl (hv _ .self)
      · exact ⟨own, formatWithin_of_own _ hown⟩
  | succ room ih =>
      rcases enclosed_or_full_or_absent_or_own path nested v with
        ⟨id, rfl, hid⟩ | ⟨id, rfl, hid⟩ | rfl | ⟨own, hown⟩
      · exact ⟨_, formatWithin_enclosed _ hid⟩
      · have hitem : ∀ w ∈ (h.items id).toList,
            ∃ text, formatWithin h room (id :: path) true w = .ok text :=
          fun w hw => ih fun x hx => hv x (hx.of_item (Array.mem_toList_iff.1 hw))
        obtain ⟨texts, htexts⟩ := formatAll_ok hitem
        exact ⟨bracketed texts, by rw [formatWithin_full _ hid, htexts]; rfl⟩
      · exact absurd rfl (hv _ .self)
      · exact ⟨own, formatWithin_of_own _ hown⟩

/-! ## The set goes with the path -/

/-- What the set holds at an occurrence is its path, and it is the same again afterwards. -/
theorem render_eq {fuel : Nat} (hfuel : (h.off path).length < fuel) :
    render h fuel nested v path.toFinset
      = .ofResult (formatWithin h fuel path nested v) path.toFinset := by
  induction fuel generalizing path nested v with
  | zero => omega
  | succ fuel ih =>
      rcases enclosed_or_full_or_absent_or_own path nested v with
        ⟨id, rfl, hid⟩ | ⟨id, rfl, hid⟩ | rfl | ⟨own, hown⟩
      · rw [formatWithin_enclosed _ hid, render, if_pos (List.mem_toFinset.2 hid)]
        rfl
      · have hset : id ∉ path.toFinset := fun hmem => hid (List.mem_toFinset.1 hmem)
        have hitems : renderAll (render h fuel true) (h.items id).toList
            (insert id path.toFinset) = .ofResult
              (formatAll (formatWithin h fuel (id :: path) true) (h.items id).toList)
              (insert id path.toFinset) := by
          rw [← List.toFinset_cons]
          exact renderAll_eq fun w hw =>
            ih (Heap.length_off_item hfuel hid (Array.mem_toList_iff.1 hw))
        rw [formatWithin_full _ hid, render, if_neg hset, hitems]
        -- taking out what was put in gives the set back, whether the items have texts or not
        cases formatAll (formatWithin h fuel (id :: path) true) (h.items id).toList <;>
          simp [Outcome.ofResult, Except.map, Finset.erase_insert hset]
      · rw [formatWithin_absent]
        rfl
      · rw [formatWithin_of_own _ hown]
        cases v with
        | list | absent => cases hown
        | _ => simp only [render, hown, Outcome.ofResult]

/-! ## Lists that are not inside themselves -/

/-- Where no list is inside itself, the path makes no difference. -/
theorem shown_iff_shownPlain {text : String}
    (hv : ∀ id, Within h v (.list id) → ¬ InsideItself h id)
    (hpath : ∀ id ∈ path, ¬ Within h v (.list id)) :
    Shown h path nested v text ↔ ShownPlain h nested v text := by
  have hitem : ∀ {path id w}, (∀ id', Within h (.list id) (.list id') → ¬ InsideItself h id') →
      (∀ id' ∈ path, ¬ Within h (.list id) (.list id')) → w ∈ h.items id →
      ∀ id' ∈ id :: path, ¬ Within h w (.list id') := by
    intro path id w hv hpath hw id' hid' hwithin
    rcases List.mem_cons.1 hid' with rfl | hmem
    · exact hv id' .self ⟨w, hw, hwithin⟩
    · exact hpath id' hmem (hwithin.of_item hw)
  constructor
  · intro hshown
    induction hshown with
    | own hown => exact .own hown
    | enclosed hid => exact absurd .self (hpath _ hid)
    | full _ hlength _ ih =>
        refine .full hlength fun k w shown hw htext => ?_
        have hmem := Array.mem_of_getElem? hw
        exact ih k w shown hw htext (fun id' hwithin => hv id' (hwithin.of_item hmem))
          (hitem hv hpath hmem)
  · intro hplain
    induction hplain generalizing path with
    | own hown => exact .own hown
    | @full nested id texts hlength _ ih =>
        refine .full (fun hid => hpath id hid .self) hlength fun k w shown hw htext => ?_
        have hmem := Array.mem_of_getElem? hw
        exact ih k w shown hw htext (fun id' hwithin => hv id' (hwithin.of_item hmem))
          (hitem hv hpath hmem)

/-! ## Main result -/

/-- In every heap, rendering comes to an end and leaves the set of the lists being rendered as it
    was. The text is the one by the path of the enclosing lists; there is one unless the absent
    value is reached. Where no list that is reached is inside itself, it is the plain recursive
    text. -/
theorem format_by_path (h : Heap) (v : Value) (nested : Bool) :
    (∀ (path : List Nat) (fuel : Nat), h.lists.size < fuel → ∃ result,
      render h fuel nested v path.toFinset = .ofResult result path.toFinset ∧
      ∀ text, result = .ok text ↔ Shown h path nested v text) ∧
    (∀ fuel, h.lists.size < fuel →
      render h fuel nested v ∅ = .ofResult (v.format h nested) ∅) ∧
    (∀ text, v.format h nested = .ok text ↔ Shown h [] nested v text) ∧
    ((∀ w, Within h v w → w ≠ .absent) → ∃ text, v.format h nested = .ok text) ∧
    ((∀ id, Within h v (.list id) → ¬ InsideItself h id) →
      ∀ text, v.format h nested = .ok text ↔ ShownPlain h nested v text) := by
  have hempty : (h.off []).length < h.lists.size + 1 := by
    rw [h.length_off_nil]
    exact Nat.lt_succ_self _
  refine ⟨fun path fuel hfuel => ?_, fun fuel hfuel => ?_, fun text => formatWithin_eq_ok hempty,
    fun hv => formatWithin_ok_of_within _ hv, fun hv text => ?_⟩
  · have hroom := Nat.lt_of_le_of_lt (h.length_off_le path) hfuel
    exact ⟨_, render_eq hroom, fun text => formatWithin_eq_ok hroom⟩
  · rw [← format_of_room h v nested hfuel, ← List.toFinset_nil]
    exact render_eq (Nat.lt_of_le_of_lt (h.length_off_le []) hfuel)
  · exact (formatWithin_eq_ok hempty).trans (shown_iff_shownPlain hv (by simp))

/-- A list that is inside itself and holds another one twice. -/
def knot : Heap := ⟨#[⟨#[.text "a", .list 0, .list 1, .list 1], 0⟩, ⟨#[.text "b"], 0⟩]⟩

theorem mem_items_knot {id : Nat} {w : Value} (hw : w ∈ knot.items id) :
    w = .text "a" ∨ w = .text "b" ∨ id = 0 ∧ (w = .list 0 ∨ w = .list 1) := by
  rcases id with _ | _ | id
  · simp [knot, Heap.items] at hw
    tauto
  · simp [knot, Heap.items] at hw
    exact .inr (.inl hw)
  · simp [knot, Heap.items] at hw

theorem within_knot_one {w : Value} (hw : Within knot (.list 1) w) :
    w = .list 1 ∨ w = .text "a" ∨ w = .text "b" := by
  induction hw with
  | self => exact .inl rfl
  | item _ hmem ih =>
      rcases mem_items_knot hmem with rfl | rfl | ⟨rfl, -⟩
      · exact .inr (.inl rfl)
      · exact .inr (.inr rfl)
      · simp at ih

theorem format_by_path_knot :
    render knot 3 false (.list 0) ∅ = .done "[\"a\", [...], [\"b\"], [\"b\"]]" ∅ ∧
    (∃ text, (Value.list 0).format knot = .ok text) ∧
    ∀ text, (Value.list 1).format knot = .ok text ↔ ShownPlain knot false (.list 1) text := by
  have hpresent : ∀ w, Within knot (.list 0) w → w ≠ .absent := by
    intro w hw
    rcases hw with _ | ⟨-, hmem⟩
    · simp
    · rcases mem_items_knot hmem with rfl | rfl | ⟨-, rfl | rfl⟩ <;> simp
  have hone : ∀ id, Within knot (.list 1) (.list id) → ¬ InsideItself knot id := by
    rintro id hid ⟨w, hw, hwithin⟩
    obtain rfl : id = 1 := by simpa using within_knot_one hid
    rcases hwithin with _ | ⟨hlist, hmem⟩
    · simpa using mem_items_knot hw
    · have hzero := mem_items_knot hmem
      simp only [reduceCtorEq, false_or] at hzero
      obtain ⟨rfl, -⟩ := hzero
      simpa using within_knot_one (hlist.of_item hw)
  refine ⟨?_, (format_by_path knot (.list 0) false).2.2.2.1 hpresent,
    (format_by_path knot (.list 1) false).2.2.2.2 hone⟩
  exact (format_by_path knot (.list 0) false).2.1 3 (by decide)

end Value

end TagScript
