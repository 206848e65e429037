import Mathlib.Data.Nat.Find
import TagScript.Proofs.Safety.WellFormed

set_option autoImplicit false

/-! # Splitting texts

The occurrences of a delimiter are found by taking the leftmost one, again and again, in the text
that remains after it (`Text.Found`). They may overlap with other occurrences, which are not found,
but not with each other. The pieces between them make up the text together with the delimiters, and
no piece holds the delimiter (`Text.Found.separates`). Splitting gives those pieces but for the
first and the last one, in a new list. -/

namespace TagScript

/-! ## Occurrences of a delimiter -/

namespace Text

variable {d s : List Char} {n : Nat} {ns : List Nat}

/-- The delimiter stands in the text at an offset. -/
def StandsAt (d s : List Char) (n : Nat) : Prop := d <+: s.drop n

instance (d s : List Char) (n : Nat) : Decidable (StandsAt d s n) :=
  inferInstanceAs (Decidable (d <+: s.drop n))

/-- The offsets of the occurrences of a delimiter, each being the leftmost one in the text that
    remains after the one before. -/
inductive Found (d : List Char) : (s : List Char) → List Nat → Prop where
  | none {s : List Char} : ¬ d <:+: s → Found d s []
  | next {s : List Char} {n : Nat} {ns : List Nat} : StandsAt d s n →
      (∀ k < n, ¬ StandsAt d s k) → Found d (s.drop (n + d.length)) ns →
      Found d s (n :: ns.map (n + d.length + ·))

theorem infix_iff_standsAt : d <:+: s ↔ ∃ n, StandsAt d s n := by
  constructor
  · rintro ⟨u, v, rfl⟩
    refine ⟨u.length, v, ?_⟩
    rw [List.append_assoc, List.drop_left]
  · rintro ⟨n, v, hv⟩
    refine ⟨s.take n, v, ?_⟩
    rw [List.append_assoc, hv, List.take_append_drop]

/-- The text is cut into what stands before the delimiter, the delimiter and what remains. -/
theorem StandsAt.eq_append (h : StandsAt d s n) :
    s = s.take n ++ (d ++ s.drop (n + d.length)) := by
  have hdrop : d ++ s.drop (n + d.length) = s.drop n := by
    rw [← List.drop_drop]
    exact List.prefix_iff_eq_append.1 h
  rw [hdrop, List.take_append_drop]

theorem StandsAt.add_length_le (hd : d ≠ []) (h : StandsAt d s n) : n + d.length ≤ s.length := by
  have hle := List.IsPrefix.length_le h
  have hpos := List.length_pos_of_ne_nil hd
  rw [List.length_drop] at hle
  omega

/-- What stands in the beginning of a text stands in the text. -/
theorem StandsAt.of_take {m : Nat} (h : StandsAt d (s.take m) n) : StandsAt d s n := by
  refine List.IsPrefix.trans h ?_
  rw [List.drop_take]
  exact List.take_prefix _ _

/-- Where there is an occurrence, there is a leftmost one. -/
theorem exists_leftmost (h : d <:+: s) : ∃ n, StandsAt d s n ∧ ∀ k < n, ¬ StandsAt d s k := by
  have hex := infix_iff_standsAt.1 h
  exact ⟨Nat.find hex, Nat.find_spec hex, fun k hk => Nat.find_min hex hk⟩

/-- The search comes to an end. -/
theorem exists_found (hd : d ≠ []) (s : List Char) : ∃ ns, Found d s ns := by
  by_cases hin : d <:+: s
  · obtain ⟨n, hn, hleast⟩ := exists_leftmost hin
    have hle := hn.add_length_le hd
    have hpos := List.length_pos_of_ne_nil hd
    have hshorter : (s.drop (n + d.length)).length < s.length := by
      rw [List.length_drop]
      omega
    obtain ⟨ns, hns⟩ := exists_found hd (s.drop (n + d.length))
    exact ⟨_, .next hn hleast hns⟩
  · exact ⟨[], .none hin⟩
termination_by s.length

/-! ## Pieces -/

theorem splitFrom_eq_drop (d : List Char) (skip : Nat) (s : List Char) :
    splitFrom d skip s = splitAtText d (s.drop skip) := by
  induction skip generalizing s with
  | zero => rfl
  | succ skip ih =>
      cases s with
      | nil => rfl
      | cons c rest => exact ih rest

/-- At the start of the text, an occurrence has nothing before it. -/
theorem splitAtText_of_prefix (hd : d ≠ []) (h : d <+: s) :
    splitAtText d s = [] :: splitAtText d (s.drop d.length) := by
  obtain ⟨x, ds, rfl⟩ := List.exists_cons_of_ne_nil hd
  cases s with
  | nil => simp at h
  | cons c rest =>
      rw [splitAtText, splitFrom, if_pos (List.isPrefixOf_iff_prefix.2 h), splitFrom_eq_drop]
      rfl

/-- A character that starts no occurrence belongs to the first piece. -/
theorem splitAtText_cons {c : Char} {p : List Char} {ps : List (List Char)}
    (h : ¬ d <+: c :: s) (hs : splitAtText d s = p :: ps) :
    splitAtText d (c :: s) = (c :: p) :: ps := by
  have hnot : ¬ d.isPrefixOf (c :: s) = true := fun hp => h (List.isPrefixOf_iff_prefix.1 hp)
  rw [splitAtText] at hs
  rw [splitAtText, splitFrom, if_neg hnot, hs]

theorem splitAtText_of_not_infix (h : ¬ d <:+: s) : splitAtText d s = [s] := by
  induction s with
  | nil => rfl
  | cons c rest ih =>
      have hrest : ¬ d <:+: rest := fun hin => h (List.infix_cons hin)
      exact splitAtText_cons (fun hp => h hp.isInfix) (ih hrest)

theorem splitAtText_of_leftmost (hd : d ≠ []) (hn : StandsAt d s n)
    (hleast : ∀ k < n, ¬ StandsAt d s k) :
    splitAtText d s = s.take n :: splitAtText d (s.drop (n + d.length)) := by
  induction n generalizing s with
  | zero =>
      rw [Nat.zero_add]
      exact splitAtText_of_prefix hd hn
  | succ n ih =>
      cases s with
      | nil =>
          have hle := hn.add_length_le hd
          simp at hle
      | cons c rest =>
          have hrest := @ih rest hn fun k hk => hleast (k + 1) (Nat.succ_lt_succ hk)
          have hsum : n + 1 + d.length = n + d.length + 1 := by omega
          rw [hsum]
          exact splitAtText_cons (hleast 0 (Nat.succ_pos n)) hrest

/-- The delimiters found in a text separate its pieces, of which `p` is the first one. -/
structure Separates (d s : List Char) (ns : List Nat) (p : List Char) (ps : List (List Char)) :
    Prop where
  count : ps.length = ns.length
  text : s = p ++ ps.flatMap (d ++ ·)
  clean : ∀ q ∈ p :: ps, ¬ d <:+: q
  /-- The delimiter after `k` further pieces is the occurrence number `k`. -/
  places : ∀ k (hk : k < ns.length), ns[k] = (p ++ (ps.take k).flatMap (d ++ ·)).length

/-- Splitting gives the pieces that the delimiters separate. -/
theorem Found.separates (hd : d ≠ []) (h : Found d s ns) :
    ∃ p ps, splitAtText d s = p :: ps ∧ Separates d s ns p ps := by
  induction h with
  | @none s hin =>
      refine ⟨s, [], splitAtText_of_not_infix hin, rfl, (List.append_nil s).symm, ?_, ?_⟩
      · simpa using hin
      · intro k hk
        cases hk
  | @next s n ns hn hleast _ ih =>
      obtain ⟨p, ps, hsplit, hps⟩ := ih
      have hlength : (s.take n).length = n := by
        rw [List.length_take]
        have hle := hn.add_length_le hd
        omega
      refine ⟨s.take n, p :: ps, ?_, ?_, ?_, ?_, ?_⟩
      · rw [splitAtText_of_leftmost hd hn hleast, hsplit]
      · simp [hps.count]
      · rw [List.flatMap_cons, List.append_assoc, ← hps.text]
        exact hn.eq_append
      · intro q hq
        rcases List.mem_cons.1 hq with rfl | hq
        · intro hin
          obtain ⟨k, hk⟩ := infix_iff_standsAt.1 hin
          have hle := hk.add_length_le hd
          have hpos := List.length_pos_of_ne_nil hd
          exact hleast k (by omega) hk.of_take
        · exact hps.clean q hq
      · intro k hk
        cases k with
        | zero => simp [hlength]
        | succ k =>
            have hplace := hps.places k (by simpa using hk)
            simp only [List.getElem_cons_succ, List.getElem_map, hplace, List.take_succ_cons,
              List.flatMap_cons, List.length_append, hlength]
            omega

end Text

/-! ## New lists -/

/-- The only difference between two states is a new list, and no frame and no list refers to it. -/
structure State.NewList (s t : State) (id : Nat) (items : Array Value) : Prop where
  fresh : s.store.heap.lists[id]? = none
  items_eq : t.store.heap.items id = items
  iterations_eq : t.store.heap.iterations id = 0
  others : t = { s with
    store := { s.store with heap := ⟨s.store.heap.lists.push ⟨items, 0⟩⟩ } }
  unshared : ∀ p arguments outer, s.WellFormed p arguments outer →
    (∀ f ∈ t.frame :: outer, f.Each (· ≠ .list id)) ∧ t.store.heap.Each (· ≠ .list id)

theorem Value.WellFormed.ne_list {p : Program} {arguments : List String} {size : Nat} {v : Value}
    (h : v.WellFormed p arguments size) : v ≠ .list size := by
  intro heq
  exact Nat.lt_irrefl size (h.list size heq)

/-- A list of items that are no lists is a new list when it is added to the heap. -/
theorem State.newList_alloc (s : State) {items : List Value}
    (hitems : ∀ v ∈ items, ∀ id, v ≠ .list id) :
    s.NewList { s with store := { s.store with heap := (s.store.heap.alloc items).2 } } s.size
      items.toArray := by
  refine ⟨?_, ?_, ?_, rfl, fun p arguments outer hs => ⟨fun f hf => ?_, ?_⟩⟩
  · exact Array.getElem?_size
  · simp [Heap.items, Heap.alloc, State.size]
  · simp [Heap.iterations, Heap.alloc, State.size]
  · exact (hs.frames f hf).imp fun v hv => hv.ne_list
  · exact Heap.Each.alloc (hs.heap.imp fun v hv => hv.ne_list) fun v hv => hitems v hv _

/-! ## Main result -/

/-- Splitting a text gives a new list, whatever the text and the delimiter are. Without a delimiter,
    its items are the characters. With one, they are the pieces that the occurrences of the
    delimiter separate, without the first and the last piece: none if there are fewer than two
    occurrences, else one less than there are occurrences. -/
theorem string_split_separates (t d : String) (s : State) :
    ∃ items u,
      Native.stringSplit.call [.text t, .text d] s = .done (some (.list s.size)) u ∧
      s.NewList u s.size (items.map fun p => .text (String.ofList p)).toArray ∧
      (d = "" → items = t.toList.map fun c => [c]) ∧
      (d ≠ "" → (∃ ns, Text.Found d.toList t.toList ns) ∧
        ∀ ns, Text.Found d.toList t.toList ns →
          (ns.length < 2 → items = []) ∧
          (2 ≤ ns.length → items.length = ns.length - 1 ∧
            ∃ first last, Text.Separates d.toList t.toList ns first (items ++ [last]))) := by
  refine ⟨Native.splitPieces t.toList d.toList, _, rfl, ?_, ?_, ?_⟩
  · refine s.newList_alloc fun v hv id => ?_
    obtain ⟨p, -, rfl⟩ := List.mem_map.1 hv
    nofun
  · rintro rfl
    rfl
  · intro hd
    have hne : d.toList ≠ [] := fun h => hd (String.toList_eq_nil_iff.1 h)
    refine ⟨Text.exists_found hne t.toList, fun ns hns => ?_⟩
    obtain ⟨first, ps, hsplit, hseparates⟩ := hns.separates hne
    have hitems : Native.splitPieces t.toList d.toList = ps.dropLast := by
      rw [Native.splitPieces, if_neg (by simpa using hne), hsplit]
      rfl
    have hcount := hseparates.count
    rw [hitems]
    constructor
    · intro hfew
      refine List.eq_nil_of_length_eq_zero ?_
      rw [List.length_dropLast]
      omega
    · intro hmany
      have hps : ps ≠ [] := by
        rintro rfl
        simp at hcount
        omega
      refine ⟨by rw [List.length_dropLast, hcount], first, ps.getLast hps, ?_⟩
      rw [List.dropLast_concat_getLast hps]
      exact hseparates

/-- Of the four places where `aa` stands in this text, two are found. -/
theorem string_split_separates_overlapping :
    Text.Found "aa".toList "xaaayaaaz".toList [1, 5] ∧
    ∃ items u,
      Native.stringSplit.call [.text "xaaayaaaz", .text "aa"] {} = .done (some (.list 0)) u ∧
      u.store.heap.items 0 = (items.map fun p => .text (String.ofList p)).toArray ∧
      items.length = 1 ∧
      ∃ first last,
        Text.Separates "aa".toList "xaaayaaaz".toList [1, 5] first (items ++ [last]) := by
  have hlast : Text.Found "aa".toList "az".toList [] := .none (by decide)
  have hrest : Text.Found "aa".toList "ayaaaz".toList [2] :=
    @Text.Found.next "aa".toList "ayaaaz".toList 2 [] (by decide) (by decide) hlast
  have hfound : Text.Found "aa".toList "xaaayaaaz".toList [1, 5] :=
    @Text.Found.next "aa".toList "xaaayaaaz".toList 1 [2] (by decide) (by decide) hrest
  obtain ⟨items, u, hcall, hnew, -, hitems⟩ := string_split_separates "xaaayaaaz" "aa" {}
  obtain ⟨-, hall⟩ := hitems (by decide)
  exact ⟨hfound, items, u, hcall, hnew.items_eq, (hall _ hfound).2 (by decide)⟩

end TagScript
