import TagScript.Proofs.Rendering
import TagScript.Proofs.Soundness.Value
import TagScript.Value.Cast

set_option autoImplicit false

/-! # Operations on proper values

The values of a run of an analysed program are *proper*: they are sound, and no text among them is
missing. An operation on proper values gives a proper value or halts in an *ordinary* way. What is
not ordinary is to find an instruction that cannot be taken apart, or a value that a run cannot
hold. -/

namespace TagScript

/-! ## Ordinary ways to halt -/

/-- A way to halt that a run of an analysed program can come to. -/
def Halt.Ordinary : Halt → Prop
  | .fault (.unknownInstruction _) _ => False
  | .fault (.operation _ .noOperand) _ => False
  | .fault (.operation _ (.unknownType _)) _ => False
  | .fault _ _ => True
  | .crash .nullInPath => True
  | .crash (.unconvertible _) => True
  | .crash (.tooManyDigits _) => True
  | .crash .undecodableInput => True
  | .crash _ => False

theorem Halt.Ordinary.locate {h : Halt} (hh : h.Ordinary) (span : Option Span) :
    (h.locate span).Ordinary := by
  cases h with
  | crash cause => exact hh
  | fault cause place =>
      cases place with
      | some place => exact hh
      | none =>
          cases cause with
          | operation name reason => cases reason <;> exact hh
          | _ => exact hh

/-- The computation gives a result that has the property, or is refused in an ordinary way. -/
def Meets {α : Type} (P : α → Prop) : Except Halt α → Prop
  | .ok a => P a
  | .error h => h.Ordinary

namespace Meets

variable {α β : Type} {P : α → Prop} {Q : β → Prop} {x : Except Halt α}

theorem bind {f : α → Except Halt β} (hx : Meets P x) (hf : ∀ a, P a → Meets Q (f a)) :
    Meets Q (x >>= f) := by
  cases x with
  | ok a => exact hf a hx
  | error h => exact hx

theorem map {f : α → β} (hx : Meets P x) (hf : ∀ a, P a → Q (f a)) : Meets Q (x.map f) := by
  cases x with
  | ok a => exact hf a hx
  | error h => exact hx

theorem imp {R : α → Prop} (hx : Meets P x) (hPR : ∀ a, P a → R a) : Meets R x := by
  cases x with
  | ok a => exact hPR a hx
  | error h => exact hx

/-- What is known of the result when there is one. -/
theorem and_ok {R : α → Prop} (hx : Meets P x) (hok : ∀ a, x = .ok a → R a) : Meets R x := by
  cases x with
  | ok a => exact hok a rfl
  | error h => exact hx

end Meets

/-! ## Integers as real numbers -/

namespace Binary64

theorem nearestEven_le (num den : Nat) : nearestEven num den ≤ num / den + 1 := by
  unfold nearestEven
  simp only
  split
  · omega
  · split <;> omega

/-- The rank of a whole number of units lies below the rank of the power of two beyond it. -/
theorem nearestRank_one_le {num e : Nat} (h : num < Nat.pow 2 (53 + e)) :
    nearestRank num 1 ≤ (e + 2) * Nat.pow 2 52 := by
  have hlog : num.log2 - 52 ≤ e := by
    by_cases hzero : num = 0
    · simp [hzero]
    · have hlt : num.log2 < 53 + e := (Nat.log2_lt hzero).2 h
      omega
  -- the number has no more than 53 bits above those that the rounding drops
  have hquot : num / 2 ^ (num.log2 - 52) < 2 ^ 53 := by
    apply Nat.div_lt_of_lt_mul
    calc num < 2 ^ (num.log2 + 1) := Nat.lt_log2_self
      _ ≤ 2 ^ (num.log2 - 52 + 53) := Nat.pow_le_pow_right (by decide) (by omega)
      _ = 2 ^ (num.log2 - 52) * 2 ^ 53 := Nat.pow_add ..
  have heven := nearestEven_le num (2 ^ (num.log2 - 52))
  have hmul : (num.log2 - 52) * 2 ^ 52 ≤ e * 2 ^ 52 := Nat.mul_le_mul_right _ hlog
  simp only [nearestRank, Nat.div_one, Nat.one_mul, Nat.pow_eq]
  omega

/-- The integers of 64 bits lie far below infinity. -/
theorem isInfinite_ofInt {n : Int} (h : Value.Fits n) : (ofInt n).isInfinite = false := by
  have habs : n.natAbs ≤ 2 ^ 63 := by
    obtain ⟨hlow, hhigh⟩ := h
    simp only [Value.minInteger, Value.maxInteger] at hlow hhigh
    omega
  have hlt : ∀ bits, n.natAbs * Nat.pow 2 bits < Nat.pow 2 (53 + (bits + 11)) := by
    intro bits
    rw [Nat.pow_eq, Nat.pow_eq]
    calc n.natAbs * 2 ^ bits ≤ 2 ^ 63 * 2 ^ bits := Nat.mul_le_mul_right _ habs
      _ = 2 ^ (63 + bits) := (Nat.pow_add 2 63 bits).symm
      _ < 2 ^ (53 + (bits + 11)) := Nat.pow_lt_pow_right (by decide) (by omega)
  have hrank : ∀ bits < 2034, nearestRank (n.natAbs * Nat.pow 2 bits) 1 ≠ infiniteRank := by
    intro bits hbits
    have hle := nearestRank_one_le (hlt bits)
    simp only [infiniteRank, Nat.pow_eq] at hle ⊢
    omega
  simp only [ofInt, ofRatio, isInfinite, beq_eq_false_iff_ne]
  exact hrank unitBits (by decide)

end Binary64

namespace Value

variable {p : Program} {arguments : List String} {size size' : Nat} {v w : Value}
  {vs : List Value}

/-! ## Proper values -/

/-- A sound value that is not the missing text. -/
def Proper (p : Program) (arguments : List String) (size : Nat) (v : Value) : Prop :=
  v.Sound p arguments size ∧ v ≠ .missingText

/-- A number or a text that is there. -/
def Plain : Value → Prop
  | .int n => Fits n
  | .real _ => True
  | .text _ => True
  | _ => False

theorem Proper.mono (h : v.Proper p arguments size) (hle : size ≤ size') :
    v.Proper p arguments size' :=
  ⟨h.1.mono hle, h.2⟩

theorem Plain.proper (h : v.Plain) : v.Proper p arguments size := by
  cases v with
  | int | real | text => exact ⟨h, fun heq => by cases heq⟩
  | _ => cases h

theorem proper_list {id : Nat} (h : id < size) : (list id).Proper p arguments size :=
  ⟨h, fun heq => by cases heq⟩

/-! ## Numbers -/

theorem integer_meets (op : String) (n : Int) : Meets Plain (integer op n) := by
  unfold integer
  split
  · rename_i hfit
    exact hfit
  · exact trivial

theorem realOfInt_eq {n : Int} (h : Fits n) : realOfInt n = .ok (.ofInt n) := by
  unfold realOfInt
  rw [Binary64.isInfinite_ofInt h]
  rfl

/-- What all operands have, if they have it, comes from operands. -/
theorem allOf_meets {α : Type} (f : Value → Option α) (h : ∀ v ∈ vs, v ≠ .absent) :
    Meets (fun r => ∀ as, r = some as → ∀ a ∈ as, ∃ v ∈ vs, f v = some a) (allOf f vs) := by
  induction vs with
  | nil =>
      rintro as ⟨⟩ a ha
      cases ha
  | cons v rest ih =>
      have hv : v ≠ .absent := h v List.mem_cons_self
      cases hf : f v with
      | none =>
          simp only [allOf, hf]
          rintro as ⟨⟩
      | some b =>
          simp only [allOf, hf]
          refine (ih fun w hw => h w (List.mem_cons_of_mem v hw)).map fun r hr as has a ha => ?_
          obtain ⟨bs, rfl, rfl⟩ := Option.map_eq_some_iff.1 has
          rcases List.mem_cons.1 ha with rfl | ha
          · exact ⟨v, List.mem_cons_self, hf⟩
          · obtain ⟨w, hw, hfw⟩ := hr bs rfl a ha
            exact ⟨w, List.mem_cons_of_mem v hw, hfw⟩

/-- The number is real, or an integer of 64 bits. -/
def Number.Fits : Number → Prop
  | .integer n => Value.Fits n
  | .real _ => True

theorem Number.toReal_meets {n : Number} (h : n.Fits) : Meets (fun _ => True) n.toReal := by
  cases n with
  | integer n =>
      rw [Number.toReal, realOfInt_eq h]
      exact trivial
  | real x => exact trivial

theorem Number.toReals_meets {ns : List Number} (h : ∀ n ∈ ns, n.Fits) :
    Meets (fun _ => True) (Number.toReals ns) := by
  induction ns with
  | nil => exact trivial
  | cons n rest ih =>
      exact (toReal_meets (h n List.mem_cons_self)).bind fun _ _ =>
        (ih fun m hm => h m (List.mem_cons_of_mem n hm)).bind fun _ _ => trivial

theorem Sound.number_fits {n : Number} (h : v.Sound p arguments size)
    (hn : v.number? = some n) : n.Fits := by
  cases v with
  | int =>
      cases hn
      exact h
  | real =>
      cases hn
      trivial
  | _ => cases hn

section Operands

variable (h : ∀ v ∈ vs, v.Proper p arguments size)
include h

theorem ne_absent_of_proper : ∀ v ∈ vs, v ≠ .absent := fun v hv => (h v hv).1.ne_absent

theorem reals?_meets : Meets (fun _ => True) (reals? vs) := by
  refine (allOf_meets number? (ne_absent_of_proper h)).bind fun r hr => ?_
  cases r with
  | none => exact trivial
  | some ns =>
      refine (Number.toReals_meets fun n hn => ?_).map fun _ _ => trivial
      obtain ⟨v, hv, hnum⟩ := hr ns rfl n hn
      exact (h v hv).1.number_fits hnum

omit h in
theorem joinFrom_meets {texts : List Wording} (htexts : .missing ∉ texts) (position : Nat) :
    Meets (fun _ => True) (joinFrom position texts) := by
  induction texts generalizing position with
  | nil => exact trivial
  | cons text rest ih =>
      cases text with
      | missing => exact absurd List.mem_cons_self htexts
      | given s =>
          exact (ih (fun hm => htexts (List.mem_cons_of_mem _ hm)) (position + 1)).map
            fun _ _ => trivial

/-! ## Operators -/

theorem add_meets : Meets Plain (add vs) := by
  have hpresent := ne_absent_of_proper h
  refine (allOf_meets int? hpresent).bind fun ints _ => ?_
  cases ints with
  | some ns => exact integer_meets _ _
  | none =>
      refine (reals?_meets h).bind fun reals _ => ?_
      cases reals with
      | some xs => exact trivial
      | none =>
          refine (allOf_meets wording? hpresent).bind fun r hr => ?_
          cases r with
          | none => exact trivial
          | some texts =>
              refine (joinFrom_meets (fun hm => ?_) 0).map fun _ _ => trivial
              -- only the missing text has no wording
              obtain ⟨v, hv, hword⟩ := hr texts rfl _ hm
              have hne := (h v hv).2
              cases v with
              | missingText => exact hne rfl
              | _ => cases hword

theorem subtract_meets (hne : vs ≠ []) : Meets Plain (subtract vs) := by
  unfold subtract
  split
  · exact absurd rfl hne
  · refine (allOf_meets int? (ne_absent_of_proper h)).bind fun ints _ => ?_
    split
    · exact (integer_meets _ _).bind fun _ _ => integer_meets _ _
    · refine (reals?_meets h).bind fun reals _ => ?_
      split <;> exact trivial

theorem multiply_meets : Meets Plain (multiply vs) := by
  refine (allOf_meets int? (ne_absent_of_proper h)).bind fun ints _ => ?_
  cases ints with
  | some ns => exact integer_meets _ _
  | none =>
      refine (reals?_meets h).bind fun reals _ => ?_
      cases reals <;> exact trivial

theorem divide_meets (hne : vs ≠ []) : Meets Plain (divide vs) := by
  unfold divide
  split
  · exact absurd rfl hne
  · refine (reals?_meets h).bind fun reals _ => ?_
    split <;> exact trivial

end Operands

/-! ## Truth -/

/-- Every proper value is true or false. -/
theorem isTruthy_ok (heap : Heap) (h : v.Proper p arguments size) :
    ∃ b, v.isTruthy heap = .ok b := by
  cases v with
  | missingText => exact absurd rfl h.2
  | other | absent => exact absurd h.1 id
  | _ => exact ⟨_, rfl⟩

theorem isTruthy_meets (heap : Heap) (h : v.Proper p arguments size) :
    Meets (fun _ => True) (v.isTruthy heap) := by
  obtain ⟨b, hb⟩ := isTruthy_ok heap h
  rw [hb]
  exact trivial

theorem ofBool_plain (b : Bool) : (ofBool b).Plain := by
  cases b <;> exact ⟨by decide, by decide⟩

theorem not_meets (heap : Heap) (h : v.Proper p arguments size) : Meets Plain (v.not heap) :=
  (isTruthy_meets heap h).map fun _ _ => ofBool_plain _

theorem and_meets (heap : Heap) (h : ∀ v ∈ vs, v.Proper p arguments size) :
    Meets Plain (Value.and heap vs) := by
  refine Meets.map (P := fun _ => True) ?_ fun _ _ => ofBool_plain _
  induction vs with
  | nil => exact trivial
  | cons v rest ih =>
      unfold allTrue
      obtain ⟨b, hb⟩ := isTruthy_ok heap (h v List.mem_cons_self)
      rw [hb]
      cases b with
      | true => exact ih fun w hw => h w (List.mem_cons_of_mem v hw)
      | false => exact trivial

theorem or_meets (heap : Heap) (h : ∀ v ∈ vs, v.Proper p arguments size) :
    Meets Plain (Value.or heap vs) := by
  refine Meets.map (P := fun _ => True) ?_ fun _ _ => ofBool_plain _
  induction vs with
  | nil => exact trivial
  | cons v rest ih =>
      unfold anyTrue
      obtain ⟨b, hb⟩ := isTruthy_ok heap (h v List.mem_cons_self)
      rw [hb]
      cases b with
      | true => exact trivial
      | false => exact ih fun w hw => h w (List.mem_cons_of_mem v hw)

/-! ## Comparison and casts -/

theorem compare_meets (hv : v.Proper p arguments size) (hw : w.Proper p arguments size) :
    Meets (fun _ => True) (v.compare w) := by
  unfold compare
  split
  · exact absurd rfl hv.1.ne_absent
  · exact absurd rfl hw.1.ne_absent
  · exact trivial
  · exact trivial
  · exact absurd rfl hw.2
  · exact absurd rfl hv.2
  · exact absurd rfl hv.2
  · split
    · rename_i a b ha hb
      refine (Number.toReal_meets (hv.1.number_fits ha)).bind fun x _ => ?_
      refine (Number.toReal_meets (hw.1.number_fits hb)).bind fun y _ => ?_
      unfold compareReals
      split <;> exact trivial
    · exact trivial

theorem comparison_meets (test : Ordering → Bool) (hv : v.Proper p arguments size)
    (hw : w.Proper p arguments size) :
    Meets Plain ((v.compare w).map fun o => ofBool (test o)) :=
  (compare_meets hv hw).map fun _ _ => ofBool_plain _

theorem parseInteger_meets (op s : String) : Meets Plain (parseInteger op s) := by
  unfold parseInteger
  split
  · split
    · exact trivial
    · exact integer_meets _ _
  · exact trivial

theorem parseReal_meets (op s : String) : Meets Plain (parseReal op s) := by
  unfold parseReal
  split <;> exact trivial

theorem castInteger_meets (op : String) (h : v.Proper p arguments size) :
    Meets Plain (v.castInteger op) := by
  cases v with
  | int n => exact h.1
  | real x => exact integer_meets _ _
  | text s => exact parseInteger_meets _ _
  | missingText => exact absurd rfl h.2
  | _ => exact trivial

theorem castReal_meets (op : String) (h : v.Proper p arguments size) :
    Meets Plain (v.castReal op) := by
  cases v with
  | int n =>
      rw [castReal, realOfInt_eq h.1]
      exact trivial
  | real x => exact trivial
  | text s => exact parseReal_meets _ _
  | missingText => exact absurd rfl h.2
  | _ => exact trivial

theorem castText_meets (op : String) (h : v.Proper p arguments size) :
    Meets Plain (v.castText op) := by
  cases v with
  | missingText => exact absurd rfl h.2
  | _ => exact trivial

/-! ## The text of values -/

theorem Within.holds {heap : Heap} {P : Value → Prop} (hheap : heap.Each P) (hv : P v) {w : Value}
    (hw : Within heap v w) : P w := by
  induction hw with
  | self => exact hv
  | item _ hmem => exact hheap _ _ hmem

/-- Inside a heap of proper values, every proper value has a text. -/
theorem formatWithin_ok {heap : Heap} (hheap : heap.Each fun v => v.Proper p arguments size)
    (room : Nat) (path : List Nat) (nested : Bool) (h : v.Proper p arguments size) :
    ∃ text, v.formatWithin heap room path nested = .ok text :=
  formatWithin_ok_of_within room fun _ hw => (hw.holds hheap h).1.ne_absent

theorem format_ok {heap : Heap} (hheap : heap.Each fun v => v.Proper p arguments size)
    (nested : Bool) (h : v.Proper p arguments size) : ∃ text, v.format heap nested = .ok text :=
  formatWithin_ok hheap _ _ nested h

end Value

end TagScript
