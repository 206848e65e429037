import Mathlib
import TagScript.Proofs.Location.Elements
import TagScript.Proofs.Markup.RoundTrip

set_option autoImplicit false

/-! # The names of a source

Tags and attribute names are names, and tags are written in lower case, which keeps what can stand
in a name. So the trees that are read from sources are named (`Markup.wellNamed_of_parse`). -/

namespace TagScript

namespace Markup

theorem isNameRest_of_isNameStart {c : Char} (h : isNameStart c = true) : isNameRest c = true := by
  simp only [isNameStart, isNameRest, Char.isAlphanum, Bool.or_eq_true] at h ⊢
  rcases h with h | h <;> simp [h]

theorem IsName.all {s : List Char} (h : IsName s) : ∀ c ∈ s, isNameRest c = true := by
  cases s with
  | nil => exact absurd h id
  | cons x rest =>
      intro c hc
      rcases List.mem_cons.1 hc with rfl | hc
      · exact isNameRest_of_isNameStart h.1
      · exact h.2 c hc

theorem isNameStart_toLower {c : Char} (h : isNameStart c = true) :
    isNameStart c.toLower = true := by
  by_cases hupper : c.isUpper = true
  · have halpha : c.toLower.isAlpha = true := by simp [Char.isAlpha, hupper]
    simp [isNameStart, halpha]
  · rwa [Char.toLower_eq_of_not_isUpper hupper]

theorem isNameRest_toLower {c : Char} (h : isNameRest c = true) : isNameRest c.toLower = true := by
  by_cases hupper : c.isUpper = true
  · have halpha : c.toLower.isAlpha = true := by simp [Char.isAlpha, hupper]
    simp [isNameRest, Char.isAlphanum, halpha]
  · rwa [Char.toLower_eq_of_not_isUpper hupper]

theorem IsName.lowerCase {s : List Char} (h : IsName s) : IsName (lowerCase s) := by
  cases s with
  | nil => exact absurd h id
  | cons x rest =>
      refine ⟨isNameStart_toLower h.1, fun c hc => ?_⟩
      obtain ⟨d, hd, rfl⟩ := List.mem_map.1 hc
      exact isNameRest_toLower (h.2 d hd)

theorem lowerCase_lowerCase (s : List Char) : lowerCase (lowerCase s) = lowerCase s := by
  rw [lowerCase, lowerCase, List.map_map]
  exact List.map_congr_left fun c _ => Char.toLower_toLower_eq_toLower c

theorem Attributes.isName {s : List Char} {as : List (String × String)} (h : Attributes s as) :
    ∀ a ∈ as, IsName a.1.toList := by
  induction h with
  | nil => exact nofun
  | cons ha _ ih =>
      obtain ⟨-, hname⟩ := ha
      rw [List.forall_mem_cons, String.toList_ofList]
      exact ⟨hname, ih⟩

theorem Opening.named {close tag s : List Char} {as : List (String × String)}
    (h : Opening close tag as s) (cs : List Node) (e : Extent) :
    Node.Named (.mk (String.ofList (lowerCase tag)) as cs e) where
  tag := by
    rw [Node.tag, String.toList_ofList]
    exact h.isName.lowerCase
  lower := by
    rw [Node.tag, String.toList_ofList]
    exact lowerCase_lowerCase tag
  names := by
    obtain ⟨_, _, _, has, _⟩ := h.parts
    exact has.isName
  distinct := h.distinct

/-- The elements of the tree of a source are named. -/
theorem wellNamed_of_parse {mode : Mode} {file text : String} {root : Node}
    (h : parse mode file text = .ok root) : root.WellNamed := by
  intro n hn
  obtain ⟨_, _, _, _, helement⟩ := (parse_eq_ok.1 h).stands n hn
  rcases helement with hopening | ⟨hopening, -⟩
  · exact hopening.named _ _
  · exact hopening.named _ _

end Markup

end TagScript
