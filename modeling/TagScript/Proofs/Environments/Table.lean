import TagScript.Proofs.Environments.Linked

set_option autoImplicit false

/-! # Tables of environments

In a table in which every environment is inside an older one, the frames outside an environment are
those of older environments. They stay the same when the environment's own frame changes
(`outer_withState`) and when a call puts another environment on the table (`outer_enter_lexical`,
`outer_enter_rootParent`). -/

namespace TagScript.Session

/-- Every environment that is inside another one is inside an older one. -/
def Ordered (s : Session) : Prop :=
  ∀ (k : Nat) (e : Environment), s.environments[k]? = some e →
    ∀ p, e.parent = .environment p → p < k

/-- What a run in an environment can read and change. -/
def state (s : Session) (number : Nat) : State := ⟨s.frame number, s.store, s.depth⟩

/-- The session after a run in an environment has ended in the given state. -/
def withState (s : Session) (number : Nat) (t : State) : Session :=
  { s.setFrame number t.frame with store := t.store, depth := t.depth }

theorem perform_eq {α : Type} (s : Session) (number : Nat) (m : Run α) :
    s.perform number m = (m (s.state number)).mapState (s.withState number) := rfl

/-- Sessions with the same environments, store and depth are the same. -/
theorem ext_environments {s t : Session}
    (henvironments : ∀ k : Nat, s.environments[k]? = t.environments[k]?)
    (hstore : s.store = t.store) (hdepth : s.depth = t.depth) : s = t := by
  cases s
  cases t
  cases hstore
  cases hdepth
  cases Array.ext_getElem? henvironments
  rfl

variable {s : Session} {number : Nat}

/-! ## The frame of one environment -/

@[simp] theorem size_withState (t : State) :
    (s.withState number t).environments.size = s.environments.size :=
  Array.size_modify

theorem getElem?_withState (t : State) (k : Nat) :
    (s.withState number t).environments[k]?
      = if number = k then s.environments[k]?.map fun e => { e with frame := t.frame }
        else s.environments[k]? :=
  Array.getElem?_modify

theorem getElem?_withState_ne (t : State) {k : Nat} (h : k ≠ number) :
    (s.withState number t).environments[k]? = s.environments[k]? := by
  rw [getElem?_withState, if_neg (Ne.symm h)]

theorem state_withState (h : number < s.environments.size) (t : State) :
    (s.withState number t).state number = t := by
  unfold state frame
  rw [getElem?_withState, if_pos rfl, Array.getElem?_eq_getElem h]
  rfl

theorem withState_withState (t u : State) :
    (s.withState number t).withState number u = s.withState number u := by
  refine ext_environments (fun k => ?_) rfl rfl
  simp only [getElem?_withState]
  split
  · rw [Option.map_map]
    rfl
  · rfl

/-- A run that keeps the frame changes no environment. -/
theorem withState_of_frame {t : State} (h : t.frame = s.frame number) :
    s.withState number t = { s with store := t.store, depth := t.depth } := by
  refine ext_environments (fun k => ?_) rfl rfl
  rw [getElem?_withState]
  split
  · rename_i hk
    subst hk
    rw [h, frame]
    cases s.environments[number]? <;> rfl
  · rfl

theorem withState_state (s : Session) (number : Nat) : s.withState number (s.state number) = s :=
  withState_of_frame rfl

theorem Ordered.withState (hs : s.Ordered) (t : State) : (s.withState number t).Ordered := by
  intro k e he p hp
  rw [getElem?_withState] at he
  split at he
  · obtain ⟨e, hk, rfl⟩ := Option.map_eq_some_iff.1 he
    exact hs k e hk p hp
  · exact hs k e he p hp

/-! ## The frames outside -/

@[simp] theorem framesOf_none (s : Session) (room : Nat) : s.framesOf room .none = [] := by
  cases room <;> rfl

@[simp] theorem framesOf_sealed (s : Session) (room : Nat) (root : Frame) :
    s.framesOf room (.sealed root) = [root] := by
  cases room <;> rfl

theorem framesOf_environment {p room : Nat} {e : Environment} (h : s.environments[p]? = some e) :
    s.framesOf (room + 1) (.environment p) = e.frame :: s.framesOf room e.parent := by
  rw [framesOf, h]

/-- The frames of a parent depend on older environments only, and not on the room. -/
theorem framesOf_congr {s t : Session} (hs : s.Ordered) (bound : Nat)
    (hsame : ∀ k < bound, t.environments[k]? = s.environments[k]?) {parent : Parent}
    {room room' : Nat} (hparent : ∀ p, parent = .environment p → p < bound ∧ p < room ∧ p < room') :
    t.framesOf room parent = s.framesOf room' parent := by
  induction room generalizing parent room' with
  | zero =>
      cases parent with
      | none => simp
      | sealed root => simp
      | environment p => exact absurd (hparent p rfl).2.1 (Nat.not_lt_zero p)
  | succ room ih =>
      cases parent with
      | none => simp
      | sealed root => simp
      | environment p =>
          obtain ⟨hbound, hroom, hroom'⟩ := hparent p rfl
          obtain ⟨room', rfl⟩ : ∃ r, room' = r + 1 := ⟨room' - 1, by omega⟩
          unfold framesOf
          rw [hsame p hbound]
          cases he : s.environments[p]? with
          | none => rfl
          | some e =>
              refine congrArg (e.frame :: ·) (ih fun q hq => ?_)
              have hqp := hs p e he q hq
              omega

theorem outer_eq {e : Environment} (h : s.environments[number]? = some e) :
    s.outer number = s.framesOf s.environments.size e.parent := by
  rw [outer, h]

theorem frame_eq {e : Environment} (h : s.environments[number]? = some e) :
    s.frame number = e.frame := by
  rw [frame, h]

theorem exists_environment (h : number < s.environments.size) :
    ∃ e, s.environments[number]? = some e :=
  ⟨_, Array.getElem?_eq_getElem h⟩

theorem lt_size {e : Environment} (h : s.environments[number]? = some e) :
    number < s.environments.size := by
  obtain ⟨hlt, _⟩ := Array.getElem?_eq_some_iff.1 h
  exact hlt

theorem outer_withState (hs : s.Ordered) (t : State) :
    (s.withState number t).outer number = s.outer number := by
  unfold outer
  rw [getElem?_withState, if_pos rfl]
  cases he : s.environments[number]? with
  | none => rfl
  | some e =>
      refine framesOf_congr hs number (fun k hk => ?_) fun p hp => ?_
      · exact getElem?_withState_ne t (Nat.ne_of_lt hk)
      · have hlt := hs number e he p hp
        have hsize := lt_size he
        rw [size_withState]
        omega

/-- Evaluation in an environment goes on where an earlier run in it has ended. -/
theorem perform_withState {α : Type} (h : number < s.environments.size) (m : Run α) (t : State) :
    (s.withState number t).perform number m = (m t).mapState (s.withState number) := by
  rw [perform_eq, state_withState h]
  cases m t with
  | done a u => exact congrArg (Outcome.done a) (withState_withState t u)
  | halted k u => exact congrArg (Outcome.halted k) (withState_withState t u)
  | outOfFuel => rfl

/-! ## The root -/

/-- The number of the root, if it has one, is that of an environment without a parent that has the
    root's frame. -/
theorem getElem?_rootFrom (hs : s.Ordered) {room k root : Nat} (hroom : k < room)
    {e : Environment} (he : s.environments[k]? = some e) (hroot : s.rootFrom room k = some root) :
    root ≤ k ∧ s.environments[root]? = some ⟨.none, e.frame.root (s.framesOf room e.parent)⟩ := by
  induction room generalizing k e with
  | zero => exact absurd hroom (Nat.not_lt_zero k)
  | succ room ih =>
      obtain ⟨parent, frame⟩ := e
      rw [rootFrom, he] at hroot
      cases parent with
      | none =>
          cases hroot
          exact ⟨Nat.le_refl root, by simpa [Frame.root] using he⟩
      | sealed root => cases hroot
      | environment p =>
          have hp := hs k _ he p rfl
          obtain ⟨e, hpe⟩ := exists_environment (Nat.lt_trans hp (lt_size he))
          obtain ⟨hle, hget⟩ := ih (by omega) hpe hroot
          refine ⟨by omega, ?_⟩
          rw [hget, framesOf_environment hpe]
          rfl

/-- The parent that sees the root alone has the root's frame. -/
theorem framesOf_rootParent (hs : s.Ordered) (h : number < s.environments.size) {room : Nat}
    (hroom : s.environments.size ≤ room) :
    s.framesOf room (s.rootParent number) = [(s.frame number).root (s.outer number)] := by
  obtain ⟨e, he⟩ := exists_environment h
  rw [rootParent, frame_eq he, outer_eq he]
  cases hroot : s.root? number with
  | none => simp
  | some root =>
      obtain ⟨hle, hget⟩ := getElem?_rootFrom hs h he hroot
      obtain ⟨room, rfl⟩ : ∃ r, room = r + 1 := ⟨room - 1, by omega⟩
      rw [framesOf_environment hget, framesOf_none]

/-- The parent that sees the root alone is an older environment or the environment itself, if it is
    on the table. -/
theorem rootParent_le (hs : s.Ordered) (h : number < s.environments.size) {p : Nat}
    (hp : s.rootParent number = .environment p) : p ≤ number := by
  obtain ⟨e, he⟩ := exists_environment h
  rw [rootParent] at hp
  split at hp
  · rename_i root hroot
    cases hp
    exact (getElem?_rootFrom hs h he hroot).1
  · cases hp

/-- The root depends on the environments alone. -/
theorem rootParent_congr {s t : Session} (h : t.environments = s.environments) (number : Nat) :
    t.rootParent number = s.rootParent number := by
  have hrootFrom : ∀ room k, t.rootFrom room k = s.rootFrom room k := by
    intro room
    induction room with
    | zero => exact fun _ => rfl
    | succ room ih =>
        intro k
        simp only [rootFrom, h, ih]
  have hframesOf : ∀ room parent, t.framesOf room parent = s.framesOf room parent := by
    intro room
    induction room with
    | zero => intro parent; cases parent <;> rfl
    | succ room ih =>
        intro parent
        cases parent with
        | environment p => simp only [framesOf, h, ih]
        | _ => rfl
  simp only [rootParent, root?, frame, outer, h, hrootFrom, hframesOf]

/-! ## Calls -/

section Calls

variable {parent : Parent} {frame : Frame}

theorem getElem?_enter (k : Nat) :
    (s.enter parent frame).environments[k]?
      = if k = s.environments.size then some ⟨parent, frame⟩ else s.environments[k]? :=
  Array.getElem?_push

theorem getElem?_enter_lt {k : Nat} (h : k < s.environments.size) :
    (s.enter parent frame).environments[k]? = s.environments[k]? := by
  rw [getElem?_enter, if_neg (Nat.ne_of_lt h)]

theorem getElem?_enter_size :
    (s.enter parent frame).environments[s.environments.size]? = some ⟨parent, frame⟩ := by
  rw [getElem?_enter, if_pos rfl]

@[simp] theorem size_enter :
    (s.enter parent frame).environments.size = s.environments.size + 1 :=
  Array.size_push _

theorem Ordered.enter (hs : s.Ordered)
    (hparent : ∀ p, parent = .environment p → p < s.environments.size) :
    (s.enter parent frame).Ordered := by
  intro k e he p hp
  rw [getElem?_enter] at he
  split at he
  · rename_i hk
    cases he
    rw [hk]
    exact hparent p hp
  · exact hs k e he p hp

theorem state_enter :
    (s.enter parent frame).state s.environments.size = ⟨frame, s.store, s.depth + 1⟩ := by
  unfold state
  rw [frame_eq getElem?_enter_size]
  rfl

/-- A function called from an environment sees the frames that the parent has. -/
theorem outer_enter (hs : s.Ordered)
    (hparent : ∀ p, parent = .environment p → p < s.environments.size) :
    (s.enter parent frame).outer s.environments.size
      = s.framesOf s.environments.size parent := by
  rw [outer_eq getElem?_enter_size, size_enter]
  refine framesOf_congr hs s.environments.size (fun k hk => getElem?_enter_lt hk) fun p hp => ?_
  have hlt := hparent p hp
  omega

theorem framesOf_self (hs : s.Ordered) (h : number < s.environments.size) :
    s.framesOf s.environments.size (.environment number) = s.frame number :: s.outer number := by
  obtain ⟨e, he⟩ := exists_environment h
  have hroom : s.framesOf s.environments.size (.environment number)
      = s.framesOf (s.environments.size + 1) (.environment number) := by
    refine framesOf_congr hs s.environments.size (fun _ _ => rfl) fun p hp => ?_
    cases hp
    omega
  rw [hroom, framesOf_environment he, frame_eq he, outer_eq he]

/-- After a call the environments are those from before. -/
theorem leave_withState_enter (t : State) :
    ((s.enter parent frame).withState s.environments.size t).leave
      = { s with store := t.store, depth := t.depth - 1 } := by
  refine ext_environments (fun k => ?_) rfl rfl
  show ((s.enter parent frame).withState s.environments.size t).environments.pop[k]? = _
  rw [Array.getElem?_pop, size_withState, size_enter, Nat.add_sub_cancel]
  split
  · rename_i hk
    rw [getElem?_withState_ne t (Nat.ne_of_lt hk), getElem?_enter_lt hk]
  · rename_i hk
    exact (Array.getElem?_eq_none (Nat.le_of_not_lt hk)).symm

end Calls

end TagScript.Session
