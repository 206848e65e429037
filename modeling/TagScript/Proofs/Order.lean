import TagScript.Value.Arithmetic

set_option autoImplicit false

/-! # The order of values

Two values are compared as integers, as real numbers or as texts, and refused otherwise. Which of
these it is does not depend on the side on which a value stands, so the comparison the other way
round is refused as well or gives the order the other way round (`compare_mirrored`). On integers
and on texts the comparison is a total order (`TotallyOrdered`); that of texts is told without it,
by their code points (`TextBefore`). -/

namespace TagScript.Value

/-! ## Texts -/

/-- One text comes before another: it is a proper beginning of it, or the first characters that
    differ have code points in this order. -/
inductive TextBefore (s t : List Char) : Prop where
  | beginning : s <+: t → s ≠ t → TextBefore s t
  | differing (shared : List Char) (a b : Char) : shared ++ [a] <+: s → shared ++ [b] <+: t →
      a.toNat < b.toNat → TextBefore s t

theorem not_textBefore_nil (s : List Char) : ¬ TextBefore s [] := by
  intro h
  rcases h with ⟨hbeginning, hne⟩ | ⟨shared, a, b, -, hb, -⟩
  · exact hne (List.prefix_nil.1 hbeginning)
  · simp at hb

theorem textBefore_nil_cons (b : Char) (bs : List Char) : TextBefore [] (b :: bs) :=
  .beginning List.nil_prefix (by simp)

/-- The first characters decide, unless they are the same. -/
theorem textBefore_cons {a b : Char} {as bs : List Char} :
    TextBefore (a :: as) (b :: bs) ↔ a.toNat < b.toNat ∨ a = b ∧ TextBefore as bs := by
  constructor
  · intro h
    rcases h with ⟨hbeginning, hne⟩ | ⟨shared, c, d, hc, hd, hlt⟩
    · obtain ⟨rfl, hrest⟩ := List.cons_prefix_cons.1 hbeginning
      exact .inr ⟨rfl, .beginning hrest (by simpa using hne)⟩
    · cases shared with
      | nil =>
          simp only [List.nil_append, List.cons_prefix_cons, List.nil_prefix, and_true] at hc hd
          subst hc hd
          exact .inl hlt
      | cons x shared =>
          obtain ⟨rfl, hs⟩ := List.cons_prefix_cons.1 hc
          obtain ⟨rfl, ht⟩ := List.cons_prefix_cons.1 hd
          exact .inr ⟨rfl, .differing shared c d hs ht hlt⟩
  · intro h
    rcases h with hlt | ⟨rfl, ⟨hbeginning, hne⟩ | ⟨shared, c, d, hc, hd, hlt⟩⟩
    · exact .differing [] a b (by simp) (by simp) hlt
    · exact .beginning (List.cons_prefix_cons.2 ⟨rfl, hbeginning⟩) (by simpa using hne)
    · exact .differing (a :: shared) c d (List.cons_prefix_cons.2 ⟨rfl, hc⟩)
        (List.cons_prefix_cons.2 ⟨rfl, hd⟩) hlt

/-- Code points are compared one after another, as long as they are the same. -/
theorem compareChars_eq_compareLex (s t : List Char) :
    compareChars s t = List.compareLex (compareOn Char.toNat) s t := by
  induction s generalizing t with
  | nil => cases t <;> rfl
  | cons a as ih =>
      cases t with
      | nil => rfl
      | cons b bs =>
          rw [List.compareLex_cons_cons, compareChars, ih]
          show _ = (Ord.compare a.toNat b.toNat).then _
          cases Ord.compare a.toNat b.toNat <;> rfl

instance : Std.TransCmp compareChars := by
  have h : compareChars = List.compareLex (compareOn Char.toNat) := by
    funext s t
    exact compareChars_eq_compareLex s t
  rw [h]
  infer_instance

theorem compareChars_eq_iff {s t : List Char} : compareChars s t = .eq ↔ s = t := by
  induction s generalizing t with
  | nil => cases t <;> simp [compareChars]
  | cons a as ih =>
      cases t with
      | nil => simp [compareChars]
      | cons b bs =>
          by_cases hab : a = b
          · subst hab
            simp [compareChars, ih]
          · have hne : Ord.compare a.toNat b.toNat ≠ .eq := by
              intro heq
              exact hab (Char.toNat_inj.1 (Nat.compare_eq_eq.1 heq))
            unfold compareChars
            split <;> simp_all

theorem compareChars_eq_lt {s t : List Char} : compareChars s t = .lt ↔ TextBefore s t := by
  induction s generalizing t with
  | nil =>
      cases t with
      | nil => simp [compareChars, not_textBefore_nil]
      | cons b bs => simp [compareChars, textBefore_nil_cons]
  | cons a as ih =>
      cases t with
      | nil => simp [compareChars, not_textBefore_nil]
      | cons b bs =>
          rw [textBefore_cons, ← ih, compareChars]
          rcases Nat.lt_trichotomy a.toNat b.toNat with hlt | heq | hgt
          · simp [Nat.compare_eq_lt.2 hlt, hlt]
          · obtain rfl := Char.toNat_inj.1 heq
            simp
          · have hne : a ≠ b := by
              intro hab
              subst hab
              exact Nat.lt_irrefl _ hgt
            simp [Nat.compare_eq_gt.2 hgt, hne, Nat.lt_asymm hgt]

/-! ## The other way round -/

/-- Two comparisons are both refused, or each gives the order of the other the other way round. -/
inductive Mirrored : Except Halt Ordering → Except Halt Ordering → Prop where
  | decided (o : Ordering) : Mirrored (.ok o) (.ok o.swap)
  | refused (h k : Halt) : Mirrored (.error h) (.error k)

theorem compareReals_mirrored (x y : Binary64) :
    Mirrored (compareReals x y) (compareReals y x) := by
  cases x with
  | nan => cases y <;> exact .refused _ _
  | signed a r =>
      cases y with
      | nan => exact .refused _ _
      | signed b s =>
          have hswap : Ord.compare (Binary64.signedRank b s) (Binary64.signedRank a r)
              = (Ord.compare (Binary64.signedRank a r) (Binary64.signedRank b s)).swap :=
            Std.OrientedCmp.eq_swap
          show Mirrored (.ok _) (.ok _)
          rw [hswap]
          exact .decided _

/-- The order of two numbers as real numbers. -/
def compareNumbers (a b : Number) : Except Halt Ordering := do
  let x ← a.toReal
  let y ← b.toReal
  compareReals x y

theorem compareNumbers_mirrored (a b : Number) :
    Mirrored (compareNumbers a b) (compareNumbers b a) := by
  unfold compareNumbers
  cases a.toReal with
  | error h => cases b.toReal <;> exact .refused _ _
  | ok x =>
      cases b.toReal with
      | error k => exact .refused _ _
      | ok y => exact compareReals_mirrored x y

/-- What a comparison does does not depend on the side on which a value stands. -/
theorem compare_mirrored (v w : Value) : Mirrored (v.compare w) (w.compare v) := by
  cases v with
  | absent => cases w <;> exact .refused _ _
  | int m =>
      cases w with
      | int n =>
          have hswap : Ord.compare n m = (Ord.compare m n).swap := Std.OrientedCmp.eq_swap
          show Mirrored (.ok _) (.ok _)
          rw [hswap]
          exact .decided _
      | real y => exact compareNumbers_mirrored (.integer m) (.real y)
      | _ => exact .refused _ _
  | real x =>
      cases w with
      | int n => exact compareNumbers_mirrored (.real x) (.integer n)
      | real y => exact compareNumbers_mirrored (.real x) (.real y)
      | _ => exact .refused _ _
  | text s =>
      cases w with
      | text t =>
          have hswap : compareChars t.toList s.toList = (compareChars s.toList t.toList).swap :=
            Std.OrientedCmp.eq_swap
          show Mirrored (.ok _) (.ok _)
          rw [hswap]
          exact .decided _
      | _ => exact .refused _ _
  | _ => cases w <;> exact .refused _ _

/-! ## What the comparisons answer -/

/-- Exactly one of the three comparisons of two values holds, and it is that of their order. -/
inductive Verdict (v w : Value) : Ordering → Prop where
  | eq : v.equal w = .ok (.int 1) → v.greater w = .ok (.int 0) → v.lower w = .ok (.int 0) →
      Verdict v w .eq
  | gt : v.equal w = .ok (.int 0) → v.greater w = .ok (.int 1) → v.lower w = .ok (.int 0) →
      Verdict v w .gt
  | lt : v.equal w = .ok (.int 0) → v.greater w = .ok (.int 0) → v.lower w = .ok (.int 1) →
      Verdict v w .lt

theorem verdict_of_compare {v w : Value} {o : Ordering} (h : v.compare w = .ok o) :
    v.Verdict w o := by
  have hequal : v.equal w = .ok (ofBool (o == .eq)) := by rw [equal, h]; rfl
  have hgreater : v.greater w = .ok (ofBool (o == .gt)) := by rw [greater, h]; rfl
  have hlower : v.lower w = .ok (ofBool (o == .lt)) := by rw [lower, h]; rfl
  cases o with
  | lt => exact .lt hequal hgreater hlower
  | eq => exact .eq hequal hgreater hlower
  | gt => exact .gt hequal hgreater hlower

/-! ## Total orders -/

/-- The comparison of the values `f a` is a total order of all `a`. -/
structure TotallyOrdered {α : Type} (f : α → Value) : Prop where
  decided : ∀ a b, ∃ o, (f a).compare (f b) = .ok o
  eq_iff : ∀ a b, (f a).compare (f b) = .ok .eq ↔ a = b
  trans : ∀ a b c, (f a).compare (f b) ≠ .ok .gt → (f b).compare (f c) ≠ .ok .gt →
    (f a).compare (f c) ≠ .ok .gt

/-- Values that are compared by a key are totally ordered if their keys are. -/
theorem TotallyOrdered.of_key {α β : Type} {f : α → Value} (key : α → β)
    (hkey : ∀ a b, key a = key b → a = b) {cmp : β → β → Ordering} [Std.TransCmp cmp]
    (heq : ∀ {x y}, cmp x y = .eq ↔ x = y)
    (h : ∀ a b, (f a).compare (f b) = .ok (cmp (key a) (key b))) : TotallyOrdered f where
  decided a b := ⟨_, h a b⟩
  eq_iff a b := by
    rw [h, Except.ok.injEq, heq]
    exact ⟨hkey a b, congrArg key⟩
  trans a b c := by
    have hle : ∀ a b, (f a).compare (f b) ≠ .ok .gt ↔ (cmp (key a) (key b)).isLE := by
      intro a b
      rw [h, ne_eq, Except.ok.injEq]
      exact Ordering.isLE_iff_ne_gt.symm
    simp only [hle]
    exact Std.TransCmp.isLE_trans

theorem totallyOrdered_int : TotallyOrdered Value.int :=
  .of_key id (fun _ _ => id) Int.compare_eq_eq fun _ _ => rfl

theorem totallyOrdered_text : TotallyOrdered Value.text :=
  .of_key String.toList (fun _ _ => String.toList_inj.1) compareChars_eq_iff fun _ _ => rfl

/-! ## Main result -/

/-- A comparison is refused if and only if the one the other way round is. Otherwise that one gives
    the order the other way round, and exactly one of the three comparisons holds. Integers are
    totally ordered by their size, and texts by their code points. -/
theorem comparison_laws (v w : Value) :
    ((∃ h, v.compare w = .error h) ↔ ∃ h, w.compare v = .error h) ∧
    (∀ o, v.compare w = .ok o → w.compare v = .ok o.swap ∧ v.Verdict w o) ∧
    (TotallyOrdered Value.int ∧ ∀ m n, (int m).compare (int n) = .ok .lt ↔ m < n) ∧
    (TotallyOrdered Value.text ∧
      ∀ s t, (text s).compare (text t) = .ok .lt ↔ TextBefore s.toList t.toList) := by
  refine ⟨?_, fun o h => ⟨?_, verdict_of_compare h⟩, ⟨totallyOrdered_int, fun m n => ?_⟩,
    totallyOrdered_text, fun s t => ?_⟩
  · have hmirrored := compare_mirrored v w
    generalize v.compare w = x at hmirrored ⊢
    generalize w.compare v = y at hmirrored ⊢
    cases hmirrored <;> simp
  · have hmirrored := compare_mirrored v w
    rw [h] at hmirrored
    generalize w.compare v = y at hmirrored ⊢
    cases hmirrored
    rfl
  · show Except.ok _ = .ok _ ↔ _
    rw [Except.ok.injEq, Int.compare_eq_lt]
  · show Except.ok _ = .ok _ ↔ _
    rw [Except.ok.injEq, compareChars_eq_lt]

/-- The last character of the basic plane comes before one beyond it. -/
theorem comparison_laws_beyondPlane :
    (text "\uffff").compare (text "😀") = .ok .lt ∧
    (text "😀").compare (text "\uffff") = .ok .gt ∧ (text "\uffff").Verdict (text "😀") .lt := by
  have hlt : (text "\uffff").compare (text "😀") = .ok .lt := rfl
  exact ⟨hlt, (comparison_laws (text "\uffff") (text "😀")).2.1 .lt hlt⟩

end TagScript.Value
