import TagScript.Proofs.Eval.Atomic
import TagScript.Proofs.Eval.Outcome

set_option autoImplicit false

/-! # What native functions do

The calls of native functions that are not refused, one rule for each form of the arguments.
Whatever holds for all native functions is shown by going through these rules. Writing a file, which
goes in two steps, has no rule here. -/

namespace TagScript.Native

/-- The call of a native function on checked arguments gives a result and changes the store. -/
inductive Does (s : Store) : Native → List Value → Option Value → Store → Prop where
  | print (v : Value) (shown : String) : v.format s.heap = .ok shown →
      Does s .print [v] (some v) (s.print shown)
  | printLine (v : Value) (shown : String) : v.format s.heap = .ok shown →
      Does s .printLine [v] (some v) (s.print (shown ++ "\n"))
  | input : s.checkLine = .ok () → Does s .input [] (some (.text s.readLine.1)) s.readLine.2
  | split (target delimiter : String) :
      Does s .stringSplit [.text target, .text delimiter]
        (textList s (splitPieces target.toList delimiter.toList)).1
        (textList s (splitPieces target.toList delimiter.toList)).2
  | splitWords (target : String) :
      Does s .stringSplit [.text target, .missingText] (textList s (innerWords target.toList)).1
        (textList s (innerWords target.toList)).2
  | toAscii (code : Int) (v : Value) : asciiText code = .ok v →
      Does s .toAscii [.int code] (some v) s
  | fromAscii (text : String) (v : Value) : asciiCode text = .ok v →
      Does s .fromAscii [.text text] (some v) s
  | arraySet (id : Nat) (index : Int) (v : Value) (heap : Heap) :
      s.heap.set "array-set" id index v = .ok heap →
      Does s .arraySet [.list id, .int index, v] none { s with heap }
  | arrayPush (id : Nat) (v : Value) (heap : Heap) : s.heap.push "array-push" id v = .ok heap →
      Does s .arrayPush [.list id, v] none { s with heap }
  | arrayPop (id : Nat) (v : Value) (heap : Heap) : s.heap.pop "array-pop" id = .ok (v, heap) →
      Does s .arrayPop [.list id] v.present? { s with heap }
  | arrayGet (id : Nat) (index : Int) (item v : Value) :
      s.heap.get "array-get" id index = .ok item → item.copy = .ok v →
      Does s .arrayGet [.list id, .int index] (some v) s
  | arrayLength (id : Nat) (v : Value) : Value.integer "integer" (s.heap.length id) = .ok v →
      Does s .arrayLength [.list id] (some v) s
  | readFile (path text : String) : readText s.files path = .ok text →
      Does s .readFile [.text path] (some (.text text)) s
  | getArgs (arguments : List String) :
      Does s (.getArgs arguments) [] (some (s.newList (arguments.map .text)).1)
        (s.newList (arguments.map .text)).2

theorem does_of_effect {f : Native} {args : List Value} {s t : Store} {r : Option Value}
    (h : f.effect args s = .ok (r, t)) : Does s f args r t := by
  unfold effect at h
  split at h <;> try cases h
  · obtain ⟨shown, hv, h⟩ := except_bind_ok h
    cases h
    exact .print _ shown hv
  · obtain ⟨shown, hv, h⟩ := except_bind_ok h
    cases h
    exact .printLine _ shown hv
  · obtain ⟨_, hline, h⟩ := except_bind_ok h
    cases h
    exact .input hline
  · exact .split _ _
  · exact .splitWords _
  · obtain ⟨v, hv, h⟩ := except_bind_ok h
    cases h
    exact .toAscii _ v hv
  · obtain ⟨v, hv, h⟩ := except_bind_ok h
    cases h
    exact .fromAscii _ v hv
  · obtain ⟨heap, hset, h⟩ := except_bind_ok h
    cases h
    exact .arraySet _ _ _ heap hset
  · obtain ⟨heap, hpush, h⟩ := except_bind_ok h
    cases h
    exact .arrayPush _ _ heap hpush
  · obtain ⟨⟨v, heap⟩, hpop, h⟩ := except_bind_ok h
    cases h
    exact .arrayPop _ v heap hpop
  · obtain ⟨item, hget, h⟩ := except_bind_ok h
    obtain ⟨v, hcopy, h⟩ := except_bind_ok h
    cases h
    exact .arrayGet _ _ item v hget hcopy
  · obtain ⟨v, hv, h⟩ := except_bind_ok h
    cases h
    exact .arrayLength _ v hv
  · obtain ⟨_, _, h⟩ := except_bind_ok h
    obtain ⟨text, htext, h⟩ := except_bind_ok h
    cases h
    exact .readFile _ text htext
  · exact .getArgs _

/-- A native function does not take the wrong number of arguments. -/
theorem effect_of_length_ne {f : Native} {args : List Value} {s : Store}
    (h : args.length ≠ f.signature.length) :
    f.effect args s = .error (.arity f.name f.signature.length args.length) := by
  fun_cases effect f args s with
  | case19 => rfl
  | _ => exact absurd rfl h

/-- A native function has no regard for trace lines on the error stream. -/
theorem effect_trace (f : Native) (args : List Value) (s : Store) (line : String) :
    f.effect args (s.trace line) = (f.effect args s).map fun r => (r.1, r.2.trace line) := by
  fun_cases effect f args s with
  | case4 | case5 | case6 | case7 | case10 | case17 => rfl
  | case1 | case2 | case3 | case8 | case9 | case11 | case12 | case13 | case15 =>
      exact except_bind_map fun _ => rfl
  | case14 | case16 => exact except_bind_map fun _ => except_bind_map fun _ => rfl
  | case18 arguments v t h =>
      cases h
      rfl
  | case19 =>
      -- arguments that do not fit are refused whatever the store
      rw [effect]
      · rfl
      all_goals assumption

/-- A file is not written with the wrong number of arguments. -/
theorem atOnce_of_length_ne {args : List Value} (h : args.length ≠ 3) :
    writeFile.atOnce args = Run.onStore (writeFile.effect args) := by
  unfold atOnce
  split <;> first | rfl | exact absurd rfl h

/-- Writing a file changes the files alone. -/
theorem writeTo_state {path contents : String} {append : Value} {s t : State}
    (h : (writeTo path contents append s).state? = some t) :
    ∃ files, t = { s with store := { s.store with files } } := by
  unfold writeTo Run.onStore at h
  split at h
  · rename_i _ store hok
    obtain ⟨_, _, hok⟩ := except_bind_ok hok
    obtain ⟨_, _, hok⟩ := except_bind_ok hok
    obtain ⟨files, _, hok⟩ := except_bind_ok hok
    cases hok
    cases h
    exact ⟨files, rfl⟩
  · cases h
    exact ⟨s.store.files, rfl⟩

end TagScript.Native
