import EmojiBattler.Shop.Play

/-! # What waiting tasks need

Every task that waits finds its emos even if the tasks before it merge away all
that they can. -/

namespace EmojiBattler.Mtc.Shop

open EmojiBattler.Emo Sampling CallMachine
open EmojiBattler.Emo.Ability.Shop (NormalAction Peri PeriAsAllyAction Pre)

/-! ## Lines of identities -/

section Lines

variable {line part : List Identity} {merges more : Nat → Prop}

theorem mem_spared {identity : Identity} : identity ∈ spared merges line ↔
    identity ∈ line ∧ (identity.isTriple = true ∨ ¬ merges identity.baseId) := by
  simp [spared, List.mem_filter]

theorem spared_sublist : (spared merges line).Sublist line := List.filter_sublist

theorem spared_spared : spared more (spared merges line) =
    spared (fun baseId => merges baseId ∨ more baseId) line := by
  rw [spared, spared, spared, List.filter_filter]
  refine List.filter_congr fun identity _ => ?_
  by_cases isTriple : identity.isTriple <;> by_cases merges identity.baseId <;>
    by_cases more identity.baseId <;> simp [*]

theorem spared_mono (sub : part.Sublist line) (fewer : ∀ baseId, more baseId → merges baseId) :
    (spared merges part).Sublist (spared more line) := by
  have narrowed : spared merges part = spared merges (spared more part) := by
    rw [spared_spared]
    refine congrArg (spared · part) (funext fun baseId => propext ?_)
    exact ⟨.inr, fun either => either.elim (fewer baseId) id⟩
  rw [narrowed]
  exact spared_sublist.trans (sub.filter _)

/-- The base of the emo with this id. -/
def baseOf (line : List Identity) (emoId : Nat) : Nat :=
  ((line.find? fun identity => identity.id = emoId).map Identity.baseId).getD 0

theorem baseOf_eq {identity : Identity} (distinct : (line.map Identity.id).Nodup)
    (member : identity ∈ line) : baseOf line identity.id = identity.baseId := by
  have found : line.find? (fun other => other.id = identity.id) = some identity :=
    Keyed.find?_of_mem distinct member
  rw [baseOf, found]
  rfl

theorem baseOf_sublist {emoId : Nat} (distinct : (line.map Identity.id).Nodup)
    (sub : part.Sublist line) (present : emoId ∈ part.map Identity.id) :
    baseOf part emoId = baseOf line emoId := by
  obtain ⟨identity, member, rfl⟩ := List.mem_map.mp present
  rw [baseOf_eq distinct (sub.subset member),
    baseOf_eq (distinct.sublist (sub.map _)) member]

end Lines

theorem ShopBoard.ids_identities (board : ShopBoard) :
    board.identities.map Identity.id = board.emoIds := by
  rw [ShopBoard.identities, List.map_map]
  rfl

theorem ShopBoard.mem_identities {board : ShopBoard} {emo : ShopBoardEmo} (member : emo ∈ board) :
    emo.identity ∈ board.identities := List.mem_map_of_mem member

/-! ## Tasks -/

section Tasks

variable (bases : Bases) (board : ShopBoard) (roots : NormalAction → Prop) (account : Account)
variable {sampler : Sampler}

/-- The emo that the pointer stands for, or the place it needs, is there. -/
def PointerFinds (line : List Identity) (action : NormalAction) : EmoPointer → Prop
  | .onBoard emoId => emoId ∈ line.map Identity.id
  | .removed _ prevEmoIndex => UsesPlace action → prevEmoIndex ≤ line.length

/-- The task finds the emos that it and the tasks which it calls speak of. -/
def Task.Finds (line : List Identity) : Task sampler → Prop
  | .callPreAbilities _ abilities => PreKept bases board roots line abilities
  | .callAbilityActionAsOneself action emoPointer | .callAbilityAction action emoPointer _ =>
      PointerFinds line action emoPointer
  | .callAbilityActionAsAlly _ oneselfEmoId allyEmoPointer =>
      oneselfEmoId ∈ line.map Identity.id ∧
        ∃ allyEmoId, allyEmoPointer = .onBoard allyEmoId ∧ allyEmoId ∈ line.map Identity.id
  | .callBoardAdditionAbilities newEmoId _ _ | .processTriple newEmoId =>
      newEmoId ∈ line.map Identity.id
  | .setEmoReturn _ | .processTripleReturn _ => True

/-- Emos of this base may be merged because of the task.  The function gives the
bases of the emos that it speaks of. -/
def Task.Merges (label : Nat → Nat) : Task sampler → Nat → Prop
  | .callPreAbilities _ abilities, baseId =>
      ∃ emoId action, (emoId, .normal action) ∈ abilities ∧
        ActionMerges bases board roots action baseId
  | .callAbilityActionAsOneself action _, baseId | .callAbilityAction action _ _, baseId
  | .callAbilityActionAsAlly (.oneselfTripleNormal action) _ _, baseId =>
      ActionMerges bases board roots action baseId
  | .callAbilityActionAsAlly (.custom .triggerSetActions) _ allyEmoPointer, baseId =>
      SetMerges bases board roots (label allyEmoPointer.getEmoId) baseId
  | .callBoardAdditionAbilities newEmoId _ _, baseId =>
      Relation.TransGen (Sets bases board roots) (label newEmoId) baseId
  | .processTriple newEmoId, baseId =>
      Relation.ReflTransGen (Sets bases board roots) (label newEmoId) baseId
  | .setEmoReturn _, _ | .processTripleReturn _, _ => False

/-- What the task carries is in play. -/
def Task.Known (label : Nat → Nat) : Task sampler → Prop
  | .callPreAbilities _ abilities => ∀ emoId action, (emoId, .normal action) ∈ abilities →
      InPlay bases board roots (.acts action)
  | .callAbilityActionAsOneself action _ | .callAbilityAction action _ _
  | .callAbilityActionAsAlly (.oneselfTripleNormal action) _ _ =>
      InPlay bases board roots (.acts action)
  | .callAbilityActionAsAlly (.custom .triggerSetActions) _ allyEmoPointer =>
      InPlay bases board roots (.acts (.setEmo (label allyEmoPointer.getEmoId))) ∧
        ∃ base, bases (label allyEmoPointer.getEmoId) = some base
  | .callBoardAdditionAbilities newEmoId newEmoTyp _ =>
      InPlay bases board roots (.acts (.setEmo (label newEmoId))) ∧
        ∃ base, bases (label newEmoId) = some base ∧ base.typ = newEmoTyp
  | .processTriple newEmoId => InPlay bases board roots (.acts (.setEmo (label newEmoId)))
  | .setEmoReturn _ | .processTripleReturn _ => True

def Task.cost (label : Nat → Nat) : Task sampler → Nat
  | .callPreAbilities _ abilities => (abilities.map fun entry => account.preCost entry.2).sum
  | .callAbilityActionAsOneself action _ | .callAbilityAction action _ _
  | .callAbilityActionAsAlly (.oneselfTripleNormal action) _ _ => account.cost action
  | .callAbilityActionAsAlly (.custom .triggerSetActions) _ allyEmoPointer =>
      2 * account.own (label allyEmoPointer.getEmoId)
  | .callBoardAdditionAbilities newEmoId _ _ =>
      boardEmoMaxCount * account.answer (label newEmoId)
  | .processTriple newEmoId =>
      account.own (label newEmoId) + boardEmoMaxCount * account.answer (label newEmoId)
  | .setEmoReturn _ | .processTripleReturn _ => 0

def costs (label : Nat → Nat) (stack : List (Task sampler)) : Nat :=
  (stack.map (Task.cost account label)).sum

/-- Each task finds its emos on what the tasks before it spare. -/
def Prepared (label : Nat → Nat) : List Identity → List (Task sampler) → Prop
  | _, [] => True
  | line, task :: rest =>
      task.Finds bases board roots line ∧
        Prepared label (spared (task.Merges bases board roots label) line) rest

end Tasks

section Stacks

variable {bases : Bases} {board : ShopBoard} {roots : NormalAction → Prop} {account : Account}
variable {sampler : Sampler} {task : Task sampler} {stack calls rest : List (Task sampler)}
variable {line part : List Identity} {label other : Nat → Nat}

theorem PreKept.mono {abilities : List (Nat × Pre)}
    (kept : PreKept bases board roots part abilities) (sub : part.Sublist line) :
    PreKept bases board roots line abilities := by
  induction abilities generalizing part line with
  | nil => trivial
  | cons entry rest ih =>
      obtain ⟨emoId, pre⟩ := entry
      cases pre with
      | normal action =>
          exact ⟨(sub.map _).subset kept.1, ih kept.2 (spared_mono sub fun _ => id)⟩
      | random action => exact ⟨(sub.map _).subset kept.1, ih kept.2 sub⟩

theorem PointerFinds.mono {action : NormalAction} {emoPointer : EmoPointer}
    (finds : PointerFinds part action emoPointer) (sub : part.Sublist line) :
    PointerFinds line action emoPointer := by
  cases emoPointer with
  | onBoard emoId => exact (sub.map _).subset finds
  | removed emo prevEmoIndex => exact fun uses => Nat.le_trans (finds uses) sub.length_le

theorem Task.Finds.mono (finds : task.Finds bases board roots part) (sub : part.Sublist line) :
    task.Finds bases board roots line := by
  cases task with
  | callPreAbilities rng abilities => exact PreKept.mono finds sub
  | callAbilityActionAsOneself action emoPointer => exact PointerFinds.mono finds sub
  | callAbilityAction action emoPointer isTripleAction => exact PointerFinds.mono finds sub
  | callAbilityActionAsAlly action oneselfEmoId allyEmoPointer =>
      obtain ⟨oneself, allyEmoId, rfl, ally⟩ := finds
      exact ⟨(sub.map _).subset oneself, allyEmoId, rfl, (sub.map _).subset ally⟩
  | callBoardAdditionAbilities newEmoId _ _ => exact (sub.map _).subset finds
  | processTriple newEmoId => exact (sub.map _).subset finds
  | setEmoReturn | processTripleReturn => trivial

section Labels

variable (agree : ∀ emoId ∈ line.map Identity.id, label emoId = other emoId)
include agree

theorem Task.merges_congr (finds : task.Finds bases board roots line) :
    task.Merges bases board roots label = task.Merges bases board roots other := by
  cases task with
  | callAbilityActionAsAlly action oneselfEmoId allyEmoPointer =>
      obtain ⟨_, allyEmoId, rfl, ally⟩ := finds
      rcases action with action | ⟨⟨⟩⟩
      · rfl
      · exact funext fun baseId => by rw [Merges, Merges, EmoPointer.getEmoId, agree _ ally]
  | callBoardAdditionAbilities newEmoId _ _ =>
      exact funext fun baseId => by rw [Merges, Merges, agree _ finds]
  | processTriple newEmoId => exact funext fun baseId => by rw [Merges, Merges, agree _ finds]
  | _ => rfl

theorem Task.known_congr (finds : task.Finds bases board roots line) :
    task.Known bases board roots label ↔ task.Known bases board roots other := by
  cases task with
  | callAbilityActionAsAlly action oneselfEmoId allyEmoPointer =>
      obtain ⟨_, allyEmoId, rfl, ally⟩ := finds
      rcases action with action | ⟨⟨⟩⟩
      · rfl
      · rw [Known, Known, EmoPointer.getEmoId, agree _ ally]
  | callBoardAdditionAbilities newEmoId _ _ => rw [Known, Known, agree _ finds]
  | processTriple newEmoId => rw [Known, Known, agree _ finds]
  | _ => rfl

theorem Task.cost_congr (finds : task.Finds bases board roots line) :
    task.cost account label = task.cost account other := by
  cases task with
  | callAbilityActionAsAlly action oneselfEmoId allyEmoPointer =>
      obtain ⟨_, allyEmoId, rfl, ally⟩ := finds
      rcases action with action | ⟨⟨⟩⟩
      · rfl
      · rw [cost, cost, EmoPointer.getEmoId, agree _ ally]
  | callBoardAdditionAbilities newEmoId _ _ => rw [cost, cost, agree _ finds]
  | processTriple newEmoId => rw [cost, cost, agree _ finds]
  | _ => rfl

end Labels

theorem Prepared.mono (prepared : Prepared bases board roots label part stack)
    (sub : part.Sublist line) : Prepared bases board roots label line stack := by
  induction stack generalizing part line with
  | nil => trivial
  | cons task rest ih =>
      exact ⟨prepared.1.mono sub, ih prepared.2 (spared_mono sub fun _ => id)⟩

theorem Prepared.finds (prepared : Prepared bases board roots label line stack) :
    ∀ task ∈ stack, task.Finds bases board roots line := by
  induction stack generalizing line with
  | nil => exact List.forall_mem_nil _
  | cons task rest ih =>
      exact List.forall_mem_cons.mpr
        ⟨prepared.1, fun later member => (ih prepared.2 later member).mono spared_sublist⟩

theorem Prepared.relabel (prepared : Prepared bases board roots label line stack)
    (agree : ∀ emoId ∈ line.map Identity.id, label emoId = other emoId) :
    Prepared bases board roots other line stack := by
  induction stack generalizing line with
  | nil => trivial
  | cons task rest ih =>
      refine ⟨prepared.1, ?_⟩
      rw [← Task.merges_congr agree prepared.1]
      exact ih prepared.2 fun emoId present => agree emoId ((spared_sublist.map _).subset present)

/-- What the calls may merge together. -/
def CallsMerge (bases : Bases) (board : ShopBoard) (roots : NormalAction → Prop)
    (label : Nat → Nat) (calls : List (Task sampler)) (baseId : Nat) : Prop :=
  ∃ call ∈ calls, call.Merges bases board roots label baseId

theorem Prepared.append (prepared : Prepared bases board roots label line calls)
    (later : Prepared bases board roots label part rest)
    (sub : part.Sublist (spared (CallsMerge bases board roots label calls) line)) :
    Prepared bases board roots label line (calls ++ rest) := by
  induction calls generalizing line with
  | nil => exact later.mono (sub.trans spared_sublist)
  | cons call calls ih =>
      refine ⟨prepared.1, ih prepared.2 ?_⟩
      rw [spared_spared]
      refine sub.trans (spared_mono (.refl _) fun baseId either => ?_)
      rcases either with first | ⟨call', member, merges⟩
      · exact ⟨call, List.mem_cons_self, first⟩
      · exact ⟨call', List.mem_cons_of_mem _ member, merges⟩

/-- Calls that find their emos on what all of them spare. -/
theorem prepared_of_finds {merges : Nat → Prop}
    (within : ∀ call ∈ calls, ∀ baseId, call.Merges bases board roots label baseId → merges baseId)
    (finds : ∀ call ∈ calls, call.Finds bases board roots (spared merges line)) :
    Prepared bases board roots label line calls := by
  induction calls generalizing line with
  | nil => trivial
  | cons call calls ih =>
      rw [List.forall_mem_cons] at within finds
      refine ⟨finds.1.mono spared_sublist, ih within.2 fun later member => ?_⟩
      refine (finds.2 later member).mono ?_
      rw [spared_spared]
      exact spared_mono (.refl _) fun baseId either => either.elim (within.1 baseId) id

theorem costs_cons : costs account label (task :: rest) =
    task.cost account label + costs account label rest := rfl

theorem costs_append (first second : List (Task sampler)) :
    costs account label (first ++ second) =
      costs account label first + costs account label second := by
  rw [costs, List.map_append, List.sum_append, costs, costs]

end Stacks

end EmojiBattler.Mtc.Shop
