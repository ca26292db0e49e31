import NPlusOne.Proofs.SearchSteps

namespace NPlusOne

namespace Task

variable {σ α β : Type}

/-- The second task does the same as the first one, unless that one runs out of depth. -/
def Extends (a b : Task σ α) : Prop :=
  ∀ st, (a.run st).1 ≠ .error .tooDeep → b.run st = a.run st

namespace Extends

theorem refl (a : Task σ α) : Extends a a :=
  fun _ _ => rfl

theorem tooDeep (b : Task σ α) : Extends (throw .tooDeep) b :=
  fun _ h => absurd rfl h

theorem bind {a b : Task σ α} {f g : α → Task σ β} (hx : Extends a b)
    (hf : ∀ x, Extends (f x) (g x)) : Extends (a >>= f) (b >>= g) := by
  intro st h
  rcases ha : a.run st with ⟨e | x, st'⟩
  · rw [run_bind_error ha] at h ⊢
    have hb : b.run st = (.error e, st') := (hx st (by simpa [ha] using h)).trans ha
    rw [run_bind_error hb]
  · rw [run_bind_ok ha] at h ⊢
    have hb : b.run st = (.ok x, st') := (hx st (by simp [ha])).trans ha
    rw [run_bind_ok hb]
    exact hf x st' h

end Extends

end Task

namespace LoopSearch

variable {ρ : Type} {s : LoopSearch ρ}

theorem extends_checkAll {check check' : Cursor → Task (WalkState ρ) Bool}
    (h : ∀ d, (check d).Extends (check' d)) (ds : List Cursor) (found : Bool) :
    (checkAll check ds found).Extends (checkAll check' ds found) := by
  induction ds generalizing found with
  | nil => exact .refl _
  | cons d ds ih => exact (h d).bind fun reached => ih (found || reached)

theorem extends_expandCall (b : Nat)
    {check check' : Cursor → Option Node → Task (WalkState ρ) Bool}
    (h : ∀ d call, (check d call).Extends (check' d call)) (file : String) (call : Cursor) :
    (s.expandCall check file call).Extends ({ s with bound := b }.expandCall check' file call) := by
  cases hs : call.simpleCallee with
  | error e =>
    unfold expandCall
    rw [hs]
    exact .refl _
  | ok callee? =>
    cases callee? with
    | none =>
      unfold expandCall
      rw [hs]
      exact .refl _
    | some callee =>
      cases hd : definitionHere file callee with
      | some d =>
        rw [expandCall_here s check hs hd, expandCall_here { s with bound := b } check' hs hd]
        exact h d _
      | none =>
        rw [expandCall_elsewhere s check hs hd,
          expandCall_elsewhere { s with bound := b } check' hs hd]
        refine .bind (.refl _) fun found => ?_
        cases found with
        | none => exact .refl _
        | some ds => exact extends_checkAll (fun d => h d _) ds false

variable [HasLog ρ]

theorem extends_walk (b : Nat) {expand expand' : Cursor → Task (WalkState ρ) Bool}
    (h : ∀ c, (expand c).Extends (expand' c)) (root : WalkRoot) (stack : List Node) (found : Bool) :
    (s.walk expand root stack found).Extends
      ({ s with bound := b }.walk expand' root stack found) := by
  induction stack, found using walk.induct s expand root with
  | case1 found =>
    rw [walk.eq_1, walk.eq_1]
    exact .refl _
  | case2 n rest found hu ih =>
    have hu' : { s with bound := b }.isQueryUse root.unit n = true := hu
    rw [walk.eq_2, walk.eq_2, if_pos hu, if_pos hu']
    refine .bind (.refl _) fun _ => ?_
    cases root.function with
    | some id => exact .refl _
    | none => exact ih
  | case3 n rest found hu _ ih | case4 n rest found hu _ ih =>
    have hno : s.isQueryUse root.unit n = false := by simpa using hu
    rw [walk_cons_of_not_use s expand hno, walk_cons_of_not_use { s with bound := b } expand' hno]
    refine .bind ?_ fun reached => ?_
    · by_cases hcall : n.kind = .call
      · simpa [hcall] using h ⟨root.unit, n⟩
      · simpa [hcall] using Task.Extends.refl (pure false)
    · cases hc : n.children with
      | error e => exact .refl _
      | ok children => exact ih reached children hc

theorem extends_enter (b : Nat) (d : Cursor) (call : Option Node)
    {body body' : DeclarationId → Task (WalkState ρ) Bool}
    (h : ∀ id, (body id).Extends (body' id)) :
    (s.enter d call body).Extends ({ s with bound := b }.enter d call body') := by
  unfold enter
  refine .bind (.refl _) fun id => .bind (.refl _) fun fresh => ?_
  cases fresh with
  | false => exact .refl _
  | true => exact (h id).bind fun _ => .refl _

/-- A function that is checked within some depth is checked in the same way within any greater
one. -/
theorem extends_checkFunctionDepth (b : Nat) {depth depth' : Nat} (hle : depth ≤ depth')
    (d : Cursor)
    (call : Option Node) :
    (s.checkFunctionDepth depth d call).Extends
      ({ s with bound := b }.checkFunctionDepth depth' d call) := by
  induction depth generalizing depth' d call with
  | zero =>
    cases depth' with
    | zero => exact extends_enter b d call fun _ => .tooDeep _
    | succ depth' => exact extends_enter b d call fun _ => .tooDeep _
  | succ depth ih =>
    obtain ⟨depth', rfl⟩ : ∃ k, depth' = k + 1 := ⟨depth' - 1, by omega⟩
    refine extends_enter b d call fun id => .bind (.refl _) fun _ => ?_
    exact extends_walk b (extends_expandCall b (ih (by omega)) id.file) _ _ _

theorem extends_checkLoop {bound bound' : Nat} (hle : bound ≤ bound') (c : Cursor) :
    ({ s with bound := bound }.checkLoop c).Extends ({ s with bound := bound' }.checkLoop c) := by
  unfold checkLoop
  cases c.node.file? with
  | none => exact .refl _
  | some file =>
    refine .bind (.refl _) fun _ => extends_walk bound' (fun call => ?_) _ _ _
    exact extends_expandCall bound' (extends_checkFunctionDepth bound' hle) file call

/-- A step that does not run out of depth is the same for every greater bound. -/
theorem extends_perform {bound bound' : Nat} (hle : bound ≤ bound') (step : Step) :
    ({ s with bound := bound }.perform step).Extends
      ({ s with bound := bound' }.perform step) := by
  cases step with
  | loop c => exact extends_checkLoop hle c
  | function d call => exact extends_checkFunctionDepth bound' hle d call

end LoopSearch

end NPlusOne
