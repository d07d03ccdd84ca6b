import Mathlib.Algebra.Order.BigOperators.Group.List
import Mathlib.Algebra.Order.Group.Nat
import EmojiBattler.Shop.Pending

/-! # Tasks that keep what waits

What one task of a shop leaves for the others: their emos, their cost and room
in the stats. -/

namespace EmojiBattler.Mtc.Shop

open EmojiBattler.Emo Sampling CallMachine
open EmojiBattler.Emo.Ability.Shop (NormalAction Peri PeriAsAllyAction Pre)

/-! ## Emos -/

/-- The abilities of the emo are in play and fit the account. -/
structure Fielded (bases : Bases) (start : ShopBoard) (roots : NormalAction → Prop)
    (account : Account) (emo : ShopBoardEmo) : Prop where
  owns : ∀ ability ∈ emo.attributes.abilities,
    InPlay bases start roots (.owns emo.baseId emo.attributes.isTriple ability)
  accounted : Accounted bases start roots account emo.baseId emo.attributes.isTriple
    emo.attributes.abilities

/-- The stats of the emo are those of its base, unless it is a triple. -/
def AtBase (bases : Bases) (emo : ShopBoardEmo) : Prop :=
  emo.attributes.isTriple = false → ∀ base, bases emo.baseId = some base →
    emo.attributes.attack ≤ base.attack ∧ emo.attributes.health ≤ base.health

/-- An action in play adds the ability. -/
def Gift (bases : Bases) (start : ShopBoard) (roots : NormalAction → Prop) (ability : Ability) :
    Prop :=
  ∃ target, InPlay bases start roots (.acts (.addAbility target ability))

section Emos

variable {bases : Bases} {start : ShopBoard} {roots : NormalAction → Prop} {account : Account}
variable {expected : Nat} {emo old : ShopBoardEmo} {abilities more : List Ability}

theorem sum_map_append_of_zero {cost : Ability → Nat} (free : ∀ ability ∈ more, cost ability = 0) :
    ((abilities ++ more).map cost).sum = (abilities.map cost).sum := by
  have none : (more.map cost).sum = 0 :=
    List.sum_eq_zero_iff_forall_eq_nat.mpr (List.forall_mem_map.mpr free)
  rw [List.map_append, List.sum_append, none, Nat.add_zero]

/-- Costless abilities change nothing that is paid for. -/
theorem Accounted.append {baseId : Nat} {isTriple other : Bool}
    (accounted : Accounted bases start roots account baseId isTriple abilities)
    (free : ∀ ability ∈ more, Costless bases start roots account ability)
    (triple : other = false → isTriple = false) :
    Accounted bases start roots account baseId other (abilities ++ more) where
  answers otherId base sets found := by
    rw [sum_map_append_of_zero fun ability member =>
      (free ability member).answer otherId base sets found]
    exact accounted.answers otherId base sets found
  own sets := by
    rw [sum_map_append_of_zero fun ability member => (free ability member).own]
    exact accounted.own sets
  extras sets notTriple base found ability member isExtra := by
    rcases List.mem_append.mp member with own | new
    · exact accounted.extras sets (triple notTriple) base found ability own isExtra
    · exact free ability new

theorem Fielded.raised {gain : Nat} (covers : Covers bases start roots account expected)
    (fielded : Fielded bases start roots account old)
    (raised : Raised (Gift bases start roots) gain old emo) :
    Fielded bases start roots account emo := by
  obtain ⟨gifts, abilities, kind⟩ := raised.abilities
  have free (ability : Ability) (member : ability ∈ gifts) :
      Costless bases start roots account ability := by
    obtain ⟨target, adds⟩ := kind ability member
    exact covers.given target ability adds
  constructor
  · intro ability member
    rw [abilities] at member
    rw [raised.baseId, raised.isTriple]
    rcases List.mem_append.mp member with own | new
    · exact fielded.owns ability own
    · obtain ⟨target, adds⟩ := kind ability new
      exact .given adds
  · rw [abilities, raised.baseId, raised.isTriple]
    exact fielded.accounted.append free id

theorem fielded_newWithBase {generatedIds baseId : Nat} {mtcEmoIds : List Nat} {base : Base}
    {isTriple : Bool} (keyed : KeyedBases bases)
    (covers : Covers bases start roots account expected)
    (sets : InPlay bases start roots (.acts (.setEmo baseId))) (found : bases baseId = some base) :
    Fielded bases start roots account (.newWithBase generatedIds mtcEmoIds base isTriple) ∧
      AtBase bases (.newWithBase generatedIds mtcEmoIds base isTriple) := by
  have id := keyed baseId base found
  subst id
  have whole := covers.newEmos base.id base sets found
  refine ⟨⟨fun ability listed => .born sets found listed,
    ⟨whole.answers, whole.own, fun sets _ => whole.extras sets rfl⟩⟩,
    fun notTriple other again => ?_⟩
  change isTriple = false at notTriple
  subst notTriple
  cases found.symm.trans again
  exact ⟨Nat.le_refl _, Nat.le_refl _⟩

theorem mem_sources {board : ShopBoard} {baseId : Nat}
    (source : emo ∈ board.filter (isSameBaseNotTriple baseId)) :
    emo ∈ board ∧ emo.baseId = baseId ∧ emo.attributes.isTriple = false := by
  obtain ⟨member, kind⟩ := List.mem_filter.mp source
  simp only [isSameBaseNotTriple, Bool.and_eq_true, decide_eq_true_eq, Bool.not_eq_true'] at kind
  exact ⟨member, kind.1.symm, kind.2⟩

/-- A triple has the abilities of its base and those that its sources have in
addition. -/
theorem Triple.mem_abilities {env : Env} {generatedIds baseId : Nat} {base : Base}
    {sources : List ShopBoardEmo} {triple : ShopBoardEmo} {ability : Ability}
    (built : Triple env generatedIds sources baseId triple)
    (found : env.emoBases baseId = some base) (listed : ability ∈ triple.attributes.abilities) :
    ability ∈ base.abilities ∨
      ∃ emo ∈ sources, ability ∈ emo.attributes.abilities ∧ ability ∉ base.abilities := by
  obtain ⟨_, again, _, abilities⟩ := built.base
  cases found.symm.trans again
  rw [abilities] at listed
  rcases List.mem_append.mp listed with own | extra
  · exact .inl own
  · obtain ⟨emo, source, inside⟩ := List.mem_flatMap.mp extra
    obtain ⟨listed, isExtra⟩ := List.mem_filter.mp inside
    exact .inr ⟨emo, source, listed, of_decide_eq_true isExtra⟩

section Sources

variable {env : Env} {generatedIds baseId : Nat} {sources : List ShopBoardEmo}
variable {triple : ShopBoardEmo} (keyed : KeyedBases env.emoBases)
variable (sets : InPlay env.emoBases start roots (.acts (.setEmo baseId)))
variable (same : ∀ emo ∈ sources, emo.baseId = baseId ∧ emo.attributes.isTriple = false)
variable (built : Triple env generatedIds sources baseId triple)

include keyed built in
theorem Triple.baseId_eq : triple.baseId = baseId := by
  obtain ⟨base, found, id, _⟩ := built.base
  rw [id, keyed baseId base found]

include keyed sets same built in
theorem Triple.owns (owns : ∀ emo ∈ sources, ∀ ability ∈ emo.attributes.abilities,
      InPlay env.emoBases start roots (.owns emo.baseId emo.attributes.isTriple ability)) :
    ∀ ability ∈ triple.attributes.abilities, InPlay env.emoBases start roots
      (.owns triple.baseId triple.attributes.isTriple ability) := by
  intro ability listed
  obtain ⟨base, found, _⟩ := built.base
  rw [built.baseId_eq keyed, built.isTriple]
  rcases built.mem_abilities found listed with own | ⟨emo, source, listed, _⟩
  · exact .born sets found own
  · have known := owns emo source ability listed
    rw [(same emo source).1, (same emo source).2] at known
    exact .merged sets known

include keyed sets same built in
theorem Triple.fielded (covers : Covers env.emoBases start roots account expected)
    (fielded : ∀ emo ∈ sources, Fielded env.emoBases start roots account emo) :
    Fielded env.emoBases start roots account triple ∧ AtBase env.emoBases triple := by
  obtain ⟨base, found, _, abilities⟩ := built.base
  refine ⟨⟨built.owns keyed sets same fun emo source => (fielded emo source).owns, ?_⟩,
    fun notTriple => ?_⟩
  · rw [built.baseId_eq keyed, built.isTriple, abilities]
    refine (covers.newEmos baseId base sets found).append (fun ability member => ?_) fun _ => rfl
    obtain ⟨emo, source, inside⟩ := List.mem_flatMap.mp member
    obtain ⟨listed, isExtra⟩ := List.mem_filter.mp inside
    have extras := (fielded emo source).accounted.extras
    rw [(same emo source).1] at extras
    exact extras sets (same emo source).2 base found ability listed (of_decide_eq_true isExtra)
  · rw [built.isTriple] at notTriple
    cases notTriple

end Sources

end Emos

/-! ## What a task leaves -/

abbrev ShopState.line (state : ShopState) : List Identity := state.board.identities

/-- The bases of the emos on the board. -/
abbrev ShopState.label (state : ShopState) : Nat → Nat := baseOf state.line

/-- The calls find what they need, merge no more than the task could and cost no
more than it. -/
structure Leaves (env : Env) (start : ShopBoard) (roots : NormalAction → Prop) (account : Account)
    (task : Task env.sampler) (before after : ShopState) (calls : List (Task env.sampler)) :
    Prop where
  prepared : Prepared env.emoBases start roots after.label after.line calls
  line : (spared (task.Merges env.emoBases start roots before.label) before.line).Sublist
    (spared (CallsMerge env.emoBases start roots after.label calls) after.line)
  known : ∀ call ∈ calls, call.Known env.emoBases start roots after.label
  emos : ∃ gain, gain + costs account after.label calls ≤ task.cost account before.label ∧
    ∀ emo ∈ after.board,
      (∃ old ∈ before.board, Raised (Gift env.emoBases start roots) gain old emo) ∨
        (Fielded env.emoBases start roots account emo ∧ AtBase env.emoBases emo)

section Leaving

variable {env : Env} {start : ShopBoard} {roots : NormalAction → Prop} {account : Account}
variable {expected : Nat} {task : Task env.sampler} {before after : ShopState}
variable {calls : List (Task env.sampler)}

theorem BoardRaised.line_eq {given : Ability → Prop} {amount : ShopBoardEmo → Nat}
    (raised : BoardRaised given amount before.board after.board) : after.line = before.line := by
  have general {first second : ShopBoard} (raised : BoardRaised given amount first second) :
      second.identities = first.identities := by
    induction raised with
    | nil => rfl
    | cons change _ ih =>
        rw [ShopBoard.identities, ShopBoard.identities, List.map_cons, List.map_cons]
        rw [ShopBoard.identities, ShopBoard.identities] at ih
        rw [ih, ShopBoardEmo.identity, ShopBoardEmo.identity, change.id, change.baseId,
          change.isTriple]
  exact general raised

theorem BoardRaised.exists_old {given : Ability → Prop} {gain : Nat} {first second : ShopBoard}
    (raised : BoardRaised given (fun _ => gain) first second) :
    ∀ emo ∈ second, ∃ old ∈ first, Raised given gain old emo := by
  induction raised with
  | nil => exact List.forall_mem_nil _
  | cons change _ ih =>
      refine List.forall_mem_cons.mpr ⟨⟨_, List.mem_cons_self, change⟩, fun emo member => ?_⟩
      obtain ⟨old, present, kept⟩ := ih emo member
      exact ⟨old, List.mem_cons_of_mem _ present, kept⟩

/-- A task that neither adds nor merges. -/
theorem Leaves.of_raised {gain : Nat}
    (raised : BoardRaised (Gift env.emoBases start roots) (fun _ => gain) before.board after.board)
    (prepared : Prepared env.emoBases start roots before.label before.line calls)
    (merges : ∀ call ∈ calls, ∀ baseId, call.Merges env.emoBases start roots before.label baseId →
      task.Merges env.emoBases start roots before.label baseId)
    (known : ∀ call ∈ calls, call.Known env.emoBases start roots before.label)
    (cost : gain + costs account before.label calls ≤ task.cost account before.label) :
    Leaves env start roots account task before after calls := by
  have label : after.label = before.label := by
    rw [ShopState.label, ShopState.label, raised.line_eq]
  refine ⟨?_, ?_, ?_, gain, ?_, fun emo member => .inl (raised.exists_old emo member)⟩
  · rwa [label, raised.line_eq]
  · rw [label, raised.line_eq]
    refine spared_mono (.refl _) fun baseId within => ?_
    obtain ⟨call, member, merged⟩ := within
    exact merges call member baseId merged
  · rwa [label]
  · rwa [label]

/-- A task that leaves the board. -/
theorem Leaves.of_same (same : after.board = before.board)
    (prepared : Prepared env.emoBases start roots before.label before.line calls)
    (merges : ∀ call ∈ calls, ∀ baseId, call.Merges env.emoBases start roots before.label baseId →
      task.Merges env.emoBases start roots before.label baseId)
    (known : ∀ call ∈ calls, call.Known env.emoBases start roots before.label)
    (cost : costs account before.label calls ≤ task.cost account before.label) :
    Leaves env start roots account task before after calls := by
  refine @Leaves.of_raised _ _ _ _ _ _ _ _ 0 ?_ prepared merges known (by rwa [Nat.zero_add])
  rw [same]
  exact .refl _

theorem leaves_nil (same : after.board = before.board) :
    Leaves env start roots account task before after [] :=
  .of_same same trivial (List.forall_mem_nil _) (List.forall_mem_nil _) (Nat.zero_le _)

theorem callPreAbilities_leaves {rng : env.sampler.Rng} {abilities : List (Nat × Pre)}
    (distinct : before.board.emoIds.Nodup)
    (finds : PreKept env.emoBases start roots before.line abilities)
    (known : (@Task.callPreAbilities env.sampler rng abilities).Known env.emoBases start roots
      before.label)
    (performed : callPreAbilities env rng abilities before = .ok (calls, after)) :
    Leaves env start roots account (.callPreAbilities rng abilities) before after calls := by
  match abilities with
  | [] =>
      cases performed
      exact leaves_nil rfl
  | (actionEmoId, .normal action) :: rest =>
      cases performed
      refine .of_same rfl ⟨finds.1, finds.2, trivial⟩ ?_ ?_ ?_
      · refine List.forall_mem_cons.mpr ⟨fun baseId merges => ?_,
          List.forall_mem_singleton.mpr fun baseId merges => ?_⟩
        · exact ⟨actionEmoId, action, List.mem_cons_self, merges⟩
        · obtain ⟨emoId, later, member, merges⟩ := merges
          exact ⟨emoId, later, List.mem_cons_of_mem _ member, merges⟩
      · exact List.forall_mem_cons.mpr ⟨known actionEmoId action List.mem_cons_self,
          List.forall_mem_singleton.mpr fun emoId later member =>
            known emoId later (List.mem_cons_of_mem _ member)⟩
      · simp [costs, Task.cost, Account.preCost]
  | (actionEmoId, .random (.increaseStatsOfMenagerie typCount attack health)) :: rest =>
      simp only [callPreAbilities, Result.bind_eq_ok_iff, Result.pure_eq_ok_iff,
        Prod.mk.injEq] at performed
      obtain ⟨⟨next, _⟩, changed, rfl, rfl⟩ := performed
      refine .of_raised (increaseStatsOfMenagerie_raised distinct changed) ⟨finds.2, trivial⟩
        ?_ ?_ ?_
      · refine List.forall_mem_singleton.mpr fun baseId merges => ?_
        obtain ⟨emoId, later, member, merges⟩ := merges
        exact ⟨emoId, later, List.mem_cons_of_mem _ member, merges⟩
      · exact List.forall_mem_singleton.mpr fun emoId later member =>
          known emoId later (List.mem_cons_of_mem _ member)
      · simp [costs, Task.cost, Account.preCost]

/-! ## Answers to an arrival -/

/-- What an ability brings about when an emo arrives, and what is merged then. -/
theorem merges_of_responds {baseId owner merged : Nat} {base : Base} {isTriple : Bool}
    {ability : Ability} {action : NormalAction} (found : env.emoBases baseId = some base)
    (owns : InPlay env.emoBases start roots (.owns owner isTriple ability))
    (responds : Responds base owner ability action)
    (merges : ActionMerges env.emoBases start roots action merged) :
    Relation.TransGen (Sets env.emoBases start roots) baseId merged := by
  obtain ⟨first, rfl, leads⟩ := merges
  exact .head' ⟨base, owner, isTriple, ability, found, owns, responds⟩ leads

theorem eq_of_periAbility {ability : Ability} {peri : Peri}
    (isPeri : periAbility? ability = some peri) : ability = .shop (.peri peri) := by
  unfold periAbility? at isPeri
  split at isPeri <;> cases isPeri
  rfl

theorem mem_of_setAction {emo : ShopBoardEmo} {action : NormalAction}
    (member : action ∈ emo.getPeriAbilities.filterMap setAction?) :
    .shop (.peri (.asOneself .set action)) ∈ emo.attributes.abilities := by
  obtain ⟨peri, listed, sets⟩ := List.mem_filterMap.mp member
  obtain ⟨ability, present, isPeri⟩ := List.mem_filterMap.mp listed
  unfold setAction? at sets
  split at sets
  · cases sets
    rwa [← eq_of_periAbility isPeri]
  · cases sets

theorem setActions_cost (emo : ShopBoardEmo) :
    ((emo.getPeriAbilities.filterMap setAction?).map account.cost).sum =
      (emo.attributes.abilities.map account.ownCost).sum := by
  rw [ShopBoardEmo.getPeriAbilities]
  induction emo.attributes.abilities with
  | nil => rfl
  | cons ability rest ih =>
      rw [List.map_cons, List.sum_cons, ← ih, Account.ownCost, List.filterMap_cons]
      cases periAbility? ability with
      | none => exact (Nat.zero_add _).symm
      | some peri =>
          simp only [Option.bind_some]
          rw [List.filterMap_cons]
          cases setAction? peri with
          | none => exact (Nat.zero_add _).symm
          | some action => rfl

section Arrivals

variable {base : Base} {emo : ShopBoardEmo}
variable (owns : ∀ ability ∈ emo.attributes.abilities,
  InPlay env.emoBases start roots (.owns emo.baseId emo.attributes.isTriple ability))
variable (keyed : KeyedBases env.emoBases)
variable (sets : InPlay env.emoBases start roots (.acts (.setEmo emo.baseId)))
variable (found : env.emoBases emo.baseId = some base)

include owns keyed found in
theorem setAction_responds {action : NormalAction}
    (member : action ∈ emo.getPeriAbilities.filterMap setAction?) :
    InPlay env.emoBases start roots (.owns emo.baseId emo.attributes.isTriple
      (.shop (.peri (.asOneself .set action)))) ∧
    Responds base emo.baseId (.shop (.peri (.asOneself .set action))) action :=
  ⟨owns _ (mem_of_setAction member), .set (keyed _ _ found).symm⟩

include owns keyed sets found in
theorem setAction_inPlay {action : NormalAction}
    (member : action ∈ emo.getPeriAbilities.filterMap setAction?) :
    InPlay env.emoBases start roots (.acts action) := by
  obtain ⟨own, responds⟩ := setAction_responds owns keyed found member
  exact .response sets found own responds

include owns in
theorem setAction_merges {action : NormalAction} {merged : Nat}
    (member : action ∈ emo.getPeriAbilities.filterMap setAction?)
    (merges : ActionMerges env.emoBases start roots action merged) :
    SetMerges env.emoBases start roots emo.baseId merged :=
  ⟨_, action, owns _ (mem_of_setAction member), merges⟩

end Arrivals

theorem SetMerges.leads {baseId merged : Nat} {base : Base} (keyed : KeyedBases env.emoBases)
    (found : env.emoBases baseId = some base)
    (merges : SetMerges env.emoBases start roots baseId merged) :
    Relation.TransGen (Sets env.emoBases start roots) baseId merged := by
  obtain ⟨isTriple, action, owns, merges⟩ := merges
  exact merges_of_responds found owns (.set (keyed _ _ found).symm) merges

theorem AnswerMerges.leads {baseId merged : Nat} {base : Base} (keyed : KeyedBases env.emoBases)
    (found : env.emoBases baseId = some base)
    (merges : AnswerMerges env.emoBases start roots base merged) :
    Relation.TransGen (Sets env.emoBases start roots) baseId merged := by
  cases merges with
  | asOneself isMatched owns merges =>
      exact merges_of_responds found owns (.asOneself isMatched) merges
  | asAlly isMatched owns merges => exact merges_of_responds found owns (.asAlly isMatched) merges
  | triggerSetActions isMatched owns merges =>
      rw [keyed _ _ found] at merges
      exact merges.leads keyed found

/-- The new emo is not merged because of its own arrival. -/
theorem new_spared {emo : ShopBoardEmo} (steady : Steady env.emoBases start roots)
    (sets : InPlay env.emoBases start roots (.acts (.setEmo emo.baseId)))
    (member : emo ∈ before.board) :
    emo.id ∈ (spared (Relation.TransGen (Sets env.emoBases start roots) emo.baseId)
      before.line).map Identity.id :=
  List.mem_map.mpr ⟨emo.identity, mem_spared.mpr
    ⟨ShopBoard.mem_identities member, .inr (steady.newEmo emo.baseId sets)⟩, rfl⟩

theorem label_eq {emo : ShopBoardEmo} (distinct : before.board.emoIds.Nodup)
    (member : emo ∈ before.board) : before.label emo.id = emo.baseId :=
  @baseOf_eq _ emo.identity (by rwa [ShopBoard.ids_identities]) (ShopBoard.mem_identities member)

/-- The calls of `trigger_set_actions`. -/
def setCalls (sampler : Sampler) (allyEmo : ShopBoardEmo) (isOneselfEmoTriple : Bool) :
    List (Task sampler) :=
  (allyEmo.getPeriAbilities.filterMap setAction?).flatMap fun action =>
    let call := .callAbilityAction action (.onBoard allyEmo.id) allyEmo.attributes.isTriple
    if isOneselfEmoTriple then [call, call] else [call]

theorem mem_setCalls {sampler : Sampler} {allyEmo : ShopBoardEmo} {isOneselfEmoTriple : Bool}
    {call : Task sampler} (made : call ∈ setCalls sampler allyEmo isOneselfEmoTriple) :
    ∃ action ∈ allyEmo.getPeriAbilities.filterMap setAction?,
      call = .callAbilityAction action (.onBoard allyEmo.id) allyEmo.attributes.isTriple := by
  obtain ⟨action, own, inside⟩ := List.mem_flatMap.mp made
  refine ⟨action, own, ?_⟩
  dsimp only at inside
  split at inside <;> simpa using inside

theorem costs_setCalls_le {sampler : Sampler} (label : Nat → Nat) (allyEmo : ShopBoardEmo)
    (isOneselfEmoTriple : Bool) :
    costs account label (setCalls sampler allyEmo isOneselfEmoTriple) ≤
      2 * (allyEmo.attributes.abilities.map account.ownCost).sum := by
  rw [← setActions_cost, setCalls]
  induction allyEmo.getPeriAbilities.filterMap setAction? with
  | nil => exact Nat.zero_le _
  | cons action rest ih =>
      rw [List.flatMap_cons, costs_append, List.map_cons, List.sum_cons, Nat.mul_add]
      refine Nat.add_le_add ?_ ih
      dsimp only
      split <;> simp [costs, Task.cost] <;> omega

theorem triggerSetActions_leaves {oneselfEmoId allyEmoId : Nat}
    (steady : Steady env.emoBases start roots) (keyed : KeyedBases env.emoBases)
    (distinct : before.board.emoIds.Nodup)
    (fielded : ∀ emo ∈ before.board, Fielded env.emoBases start roots account emo)
    (known : (@Task.callAbilityActionAsAlly env.sampler (.custom .triggerSetActions) oneselfEmoId
      (.onBoard allyEmoId)).Known env.emoBases start roots before.label)
    (performed : callAbilityActionAsAlly env (.custom .triggerSetActions) oneselfEmoId
      (.onBoard allyEmoId) before = .ok (calls, after)) :
    Leaves env start roots account
      (.callAbilityActionAsAlly (.custom .triggerSetActions) oneselfEmoId (.onBoard allyEmoId))
      before after calls := by
  simp only [callAbilityActionAsAlly, triggerSetActions, Result.bind_eq_ok_iff,
    Result.pure_eq_ok_iff, Prod.mk.injEq] at performed
  obtain ⟨oneselfEmo, _, allyEmo, looked, rfl, rfl⟩ := performed
  obtain ⟨member, rfl⟩ := ShopBoard.getEmoById_found looked
  obtain ⟨sets, base, found⟩ := known
  have label := label_eq distinct member
  rw [EmoPointer.getEmoId, label] at sets found
  have emo := fielded allyEmo member
  have merges : ∀ call ∈ setCalls env.sampler allyEmo oneselfEmo.attributes.isTriple, ∀ merged,
      call.Merges env.emoBases start roots before.label merged →
        SetMerges env.emoBases start roots allyEmo.baseId merged := by
    intro call made merged merges
    obtain ⟨action, own, rfl⟩ := mem_setCalls made
    exact setAction_merges emo.owns own merges
  have finds := (spared_mono (.refl before.line) fun merged (merges : SetMerges ..) =>
    merges.leads keyed found).map Identity.id |>.subset (new_spared steady sets member)
  refine .of_same rfl (prepared_of_finds merges fun call made => ?_)
    (fun call made merged within => ?_) (fun call made => ?_) ?_
  · obtain ⟨action, own, rfl⟩ := mem_setCalls made
    exact finds
  · rw [Task.Merges, EmoPointer.getEmoId, label]
    exact merges call made merged within
  · obtain ⟨action, own, rfl⟩ := mem_setCalls made
    exact setAction_inPlay emo.owns keyed sets found own
  · rw [Task.cost, EmoPointer.getEmoId, label]
    exact Nat.le_trans (costs_setCalls_le _ _ _)
      (Nat.mul_le_mul_left 2 (emo.accounted.own sets))

theorem additionCall_cases {newEmoId abilityEmoId : Nat} {newEmoTyp : Typ} {isNewEmoTriple : Bool}
    {peri : Peri} {call : Task env.sampler}
    (made : additionCall? env newEmoId newEmoTyp isNewEmoTriple abilityEmoId peri = some call) :
    ∃ typAndTriple, isMatchedTypAndTriple typAndTriple newEmoTyp isNewEmoTriple = true ∧
      ((∃ action, peri = .asAlly (.allySet typAndTriple) action ∧
        call = .callAbilityActionAsAlly action abilityEmoId (.onBoard newEmoId)) ∨
      ∃ action, peri = .asOneself (.allySet typAndTriple) action ∧
        call = .callAbilityActionAsOneself action (.onBoard abilityEmoId)) := by
  unfold additionCall? at made
  split at made
  · split at made <;> cases made
    exact ⟨_, ‹_›, .inl ⟨_, rfl, rfl⟩⟩
  · split at made <;> cases made
    exact ⟨_, ‹_›, .inr ⟨_, rfl, rfl⟩⟩
  · cases made

theorem additionCall_cost_le {newEmoId abilityEmoId : Nat} {isNewEmoTriple : Bool} {base : Base}
    {label : Nat → Nat} {peri : Peri} {call : Task env.sampler} (new : label newEmoId = base.id)
    (made : additionCall? env newEmoId base.typ isNewEmoTriple abilityEmoId peri = some call) :
    call.cost account label ≤ account.answerCost base (.shop (.peri peri)) := by
  obtain ⟨typAndTriple, isMatched, ⟨action, rfl, rfl⟩ | ⟨action, rfl, rfl⟩⟩ :=
    additionCall_cases made
  all_goals
    rw [isMatchedTypAndTriple, Bool.and_eq_true] at isMatched
  · cases action with
    | oneselfTripleNormal action =>
        rw [Account.answerCost, if_pos isMatched.1]
        exact Nat.le_refl _
    | custom action =>
        cases action
        rw [Account.answerCost, if_pos isMatched.1, Task.cost, EmoPointer.getEmoId, new]
  · rw [Account.answerCost, if_pos isMatched.1]
    exact Nat.le_refl _

theorem costs_filterMap_le {label : Nat → Nat} (base : Base)
    {f : Nat × Peri → Option (Task env.sampler)}
    (each : ∀ entry call, f entry = some call →
      call.cost account label ≤ account.answerCost base (.shop (.peri entry.2)))
    (board : ShopBoard) :
    costs account label (board.getBoardPeriAbilities.filterMap f) ≤
      (board.map fun emo => (emo.attributes.abilities.map (account.answerCost base)).sum).sum := by
  have ofEmo (emoId : Nat) (abilities : List Ability) :
      costs account label (((abilities.filterMap periAbility?).map fun peri =>
        (emoId, peri)).filterMap f) ≤ (abilities.map (account.answerCost base)).sum := by
    induction abilities with
    | nil => exact Nat.le_refl _
    | cons ability rest ih =>
        rw [List.map_cons, List.sum_cons, List.filterMap_cons]
        cases isPeri : periAbility? ability with
        | none => exact Nat.le_trans ih (Nat.le_add_left _ _)
        | some peri =>
            rw [eq_of_periAbility isPeri]
            simp only [List.map_cons, List.filterMap_cons]
            cases made : f (emoId, peri) with
            | none => exact Nat.le_trans ih (Nat.le_add_left _ _)
            | some call =>
                rw [costs, List.map_cons, List.sum_cons]
                exact Nat.add_le_add (each (emoId, peri) call made) ih
  induction board with
  | nil => exact Nat.le_refl _
  | cons emo rest ih =>
      rw [List.map_cons, List.sum_cons, ShopBoard.getBoardPeriAbilities, List.flatMap_cons,
        List.filterMap_append, costs_append]
      exact Nat.add_le_add (ofEmo emo.id emo.attributes.abilities) ih

section Answering

variable {base : Base} {newEmo emo : ShopBoardEmo} {call : Task env.sampler}
variable (steady : Steady env.emoBases start roots) (keyed : KeyedBases env.emoBases)
variable (distinct : before.board.emoIds.Nodup) (member : newEmo ∈ before.board)
variable (sets : InPlay env.emoBases start roots (.acts (.setEmo newEmo.baseId)))
variable (found : env.emoBases newEmo.baseId = some base) (present : emo ∈ before.board)

/-- Each call comes from an ability of an emo on the board. -/
theorem mem_callBoardAdditionAbilities {newEmoId : Nat} {newEmoTyp : Typ} {isNewEmoTriple : Bool}
    (made : call ∈ (callBoardAdditionAbilities env newEmoId newEmoTyp isNewEmoTriple before).1) :
    ∃ emo ∈ before.board, ∃ peri, .shop (.peri peri) ∈ emo.attributes.abilities ∧
      additionCall? env newEmoId newEmoTyp isNewEmoTriple emo.id peri = some call := by
  obtain ⟨⟨abilityEmoId, peri⟩, entry, made⟩ := List.mem_filterMap.mp made
  obtain ⟨emo, present, inside⟩ := List.mem_flatMap.mp entry
  obtain ⟨_, listed, same⟩ := List.mem_map.mp inside
  cases same
  obtain ⟨ability, has, isPeri⟩ := List.mem_filterMap.mp listed
  rw [Option.ite_none_left_eq_some] at made
  exact ⟨emo, present, peri, eq_of_periAbility isPeri ▸ has, made.2⟩

include steady sets found present in
/-- An emo that answers an arrival is not merged while the board answers it. -/
theorem answering_spared {ability : Ability}
    (owns : InPlay env.emoBases start roots (.owns emo.baseId emo.attributes.isTriple ability))
    (answers : Answers base ability) :
    emo.id ∈
      (spared (AnswerMerges env.emoBases start roots base) before.line).map Identity.id := by
  refine List.mem_map.mpr
    ⟨emo.identity, mem_spared.mpr ⟨ShopBoard.mem_identities present, ?_⟩, rfl⟩
  change emo.attributes.isTriple = true ∨ _
  cases isTriple : emo.attributes.isTriple with
  | true => exact .inl rfl
  | false =>
      rw [isTriple] at owns
      exact .inr fun merges => steady.answers _ _ _ _ sets found merges owns answers

include steady keyed distinct member sets found present in
theorem additionCall_facts {isNewEmoTriple : Bool} {peri : Peri}
    (owns : InPlay env.emoBases start roots
      (.owns emo.baseId emo.attributes.isTriple (.shop (.peri peri))))
    (made : additionCall? env newEmo.id base.typ isNewEmoTriple emo.id peri = some call) :
    (∀ merged, call.Merges env.emoBases start roots before.label merged →
      AnswerMerges env.emoBases start roots base merged) ∧
    call.Finds env.emoBases start roots
      (spared (AnswerMerges env.emoBases start roots base) before.line) ∧
    call.Known env.emoBases start roots before.label := by
  have label := label_eq distinct member
  have new := (spared_mono (.refl before.line) fun merged (merges : AnswerMerges ..) =>
    merges.leads keyed found).map Identity.id |>.subset (new_spared steady sets member)
  obtain ⟨typAndTriple, isMatched, ⟨action, rfl, rfl⟩ | ⟨action, rfl, rfl⟩⟩ :=
    additionCall_cases made
  · have finds := answering_spared steady sets found present owns (.asAlly isMatched)
    cases action with
    | oneselfTripleNormal action =>
        exact ⟨fun merged => .asAlly isMatched owns, ⟨finds, newEmo.id, rfl, new⟩,
          .response sets found owns (.asAlly isMatched)⟩
    | custom action =>
        cases action
        rw [Task.Known, EmoPointer.getEmoId, label]
        refine ⟨fun merged merges => ?_, ⟨finds, newEmo.id, rfl, new⟩, sets, base, found⟩
        rw [Task.Merges, EmoPointer.getEmoId, label, ← keyed _ _ found] at merges
        exact .triggerSetActions isMatched owns merges
  · exact ⟨fun merged => .asOneself isMatched owns,
      answering_spared steady sets found present owns (.asOneself isMatched),
      .response sets found owns (.asOneself isMatched)⟩

end Answering

theorem callBoardAdditionAbilities_leaves {newEmoId : Nat} {newEmoTyp : Typ}
    {isNewEmoTriple : Bool} (steady : Steady env.emoBases start roots)
    (keyed : KeyedBases env.emoBases) (small : before.board.length ≤ boardEmoMaxCount)
    (distinct : before.board.emoIds.Nodup)
    (fielded : ∀ emo ∈ before.board, Fielded env.emoBases start roots account emo)
    (finds : newEmoId ∈ before.line.map Identity.id)
    (known : (@Task.callBoardAdditionAbilities env.sampler newEmoId newEmoTyp isNewEmoTriple).Known
      env.emoBases start roots before.label) :
    Leaves env start roots account
      (.callBoardAdditionAbilities newEmoId newEmoTyp isNewEmoTriple) before before
      (callBoardAdditionAbilities env newEmoId newEmoTyp isNewEmoTriple before).1 := by
  rw [ShopBoard.ids_identities] at finds
  obtain ⟨newEmo, member, rfl⟩ := List.mem_map.mp finds
  obtain ⟨sets, base, found, rfl⟩ := known
  have label := label_eq distinct member
  rw [label] at sets found
  have facts {call : Task env.sampler} (made : call ∈
      (callBoardAdditionAbilities env newEmo.id base.typ isNewEmoTriple before).1) :
      (∀ merged, call.Merges env.emoBases start roots before.label merged →
        AnswerMerges env.emoBases start roots base merged) ∧
      call.Finds env.emoBases start roots
        (spared (AnswerMerges env.emoBases start roots base) before.line) ∧
      call.Known env.emoBases start roots before.label := by
    obtain ⟨emo, present, peri, has, made⟩ := mem_callBoardAdditionAbilities made
    exact additionCall_facts steady keyed distinct member sets found present
      ((fielded emo present).owns _ has) made
  refine .of_same rfl (prepared_of_finds (fun call made => (facts made).1)
    fun call made => (facts made).2.1) (fun call made merged merges => ?_)
    (fun call made => (facts made).2.2) ?_
  · rw [Task.Merges, label]
    exact ((facts made).1 merged merges).leads keyed found
  · rw [Task.cost, label]
    refine Nat.le_trans (costs_filterMap_le base (fun entry call made => ?_) before.board) ?_
    · rw [Option.ite_none_left_eq_some] at made
      exact additionCall_cost_le (label.trans (keyed _ _ found).symm) made.2
    · refine Nat.le_trans (List.sum_le_card_nsmul _ (account.answer newEmo.baseId)
        (List.forall_mem_map.mpr fun emo present => ?_)) ?_
      · exact (fielded emo present).accounted.answers _ base sets found
      · rw [List.length_map, Nat.nsmul_eq_mul]
        exact Nat.mul_le_mul_right _ small

/-! ## Arrivals -/

/-- The calls for a new emo before those of the functions that added it. -/
def arrivalCalls (sampler : Sampler) (newEmo : ShopBoardEmo) (newEmoTyp : Typ) :
    List (Task sampler) :=
  (newEmo.getPeriAbilities.filterMap setAction?).map
      (.callAbilityActionAsOneself · (.onBoard newEmo.id)) ++
    [.callBoardAdditionAbilities newEmo.id newEmoTyp newEmo.attributes.isTriple]

def tripleCheck (sampler : Sampler) (newEmo : ShopBoardEmo) : List (Task sampler) :=
  if newEmo.attributes.isTriple then [] else [.processTriple newEmo.id]

theorem addEmoWithBoardEmo_calls {newEmo : ShopBoardEmo} {emoIndex : Nat}
    (distinct : after.board.emoIds.Nodup)
    (added : addEmoWithBoardEmo env newEmo emoIndex before = .ok (calls, after)) :
    emoIndex ≤ before.board.length ∧ after.board = before.board.insertIdx emoIndex newEmo ∧
      ∃ base, env.emoBases newEmo.baseId = some base ∧
        calls = arrivalCalls env.sampler newEmo base.typ ++ tripleCheck env.sampler newEmo := by
  simp only [addEmoWithBoardEmo, callEmoAdditionAbilities, Result.bind_eq_ok_iff, ensure_eq_ok_iff,
    Result.pure_eq_ok_iff, Prod.mk.injEq, Emo.Bases.find_eq_ok_iff] at added
  obtain ⟨_, _, _, bound, _, ⟨other, looked, base, found, rfl⟩, rfl, rfl⟩ := added
  simp only [ShopState.addLog_board] at looked distinct ⊢
  have inside : emoIndex ≤ before.board.length := Nat.le_trans bound (Nat.mod_le ..)
  obtain ⟨member, same⟩ := ShopBoard.getEmoById_found looked
  have present : newEmo ∈ before.board.insertIdx emoIndex newEmo :=
    (List.mem_insertIdx inside).mpr (.inl rfl)
  have identical : other = newEmo := List.inj_on_of_nodup_map distinct member present same
  subst identical
  exact ⟨inside, trivial, base, found, rfl⟩

/-- The task is the end of a function that added an emo. -/
inductive Task.IsReturn {sampler : Sampler} : Task sampler → Prop
  | setEmo (gottenCoin : Nat) : IsReturn (.setEmoReturn gottenCoin)
  | processTriple (gottenCoin : Nat) : IsReturn (.processTripleReturn gottenCoin)

theorem Task.IsReturn.not_merges {label : Nat → Nat} {merged : Nat} {call : Task env.sampler}
    (last : call.IsReturn) : ¬ call.Merges env.emoBases start roots label merged := by
  cases last <;> exact id

theorem Task.IsReturn.known {label : Nat → Nat} {call : Task env.sampler} (last : call.IsReturn) :
    call.Known env.emoBases start roots label := by
  cases last <;> trivial

theorem prepared_returns {label : Nat → Nat} {line : List Identity}
    (returns : ∀ call ∈ calls, call.IsReturn) :
    Prepared env.emoBases start roots label line calls := by
  refine @prepared_of_finds _ _ _ _ _ _ _ (fun _ => False)
    (fun call made merged => (returns call made).not_merges) fun call made => ?_
  cases returns call made <;> trivial

theorem costs_returns {label : Nat → Nat} (returns : ∀ call ∈ calls, call.IsReturn) :
    costs account label calls = 0 := by
  refine List.sum_eq_zero_iff_forall_eq_nat.mpr (List.forall_mem_map.mpr fun call made => ?_)
  cases returns call made <;> rfl

section New

variable {newEmo : ShopBoardEmo} {base : Base} {call : Task env.sampler}
variable (steady : Steady env.emoBases start roots) (keyed : KeyedBases env.emoBases)
variable (distinct : after.board.emoIds.Nodup) (member : newEmo ∈ after.board)
variable (sets : InPlay env.emoBases start roots (.acts (.setEmo newEmo.baseId)))
variable (found : env.emoBases newEmo.baseId = some base)
variable (fielded : Fielded env.emoBases start roots account newEmo)

include steady keyed distinct member sets found fielded in
theorem arrivalCalls_facts (made : call ∈ arrivalCalls env.sampler newEmo base.typ) :
    (∀ merged, call.Merges env.emoBases start roots after.label merged →
      Relation.TransGen (Sets env.emoBases start roots) newEmo.baseId merged) ∧
    call.Finds env.emoBases start roots
      (spared (Relation.TransGen (Sets env.emoBases start roots) newEmo.baseId) after.line) ∧
    call.Known env.emoBases start roots after.label := by
  have finds := new_spared steady sets member
  rcases List.mem_append.mp made with own | board
  · obtain ⟨action, listed, rfl⟩ := List.mem_map.mp own
    exact ⟨fun merged merges => (setAction_merges fielded.owns listed merges).leads keyed found,
      finds, setAction_inPlay fielded.owns keyed sets found listed⟩
  · rw [List.mem_singleton.mp board]
    refine ⟨fun merged merges => ?_, finds, ?_⟩
    · rwa [Task.Merges, label_eq distinct member] at merges
    · rw [Task.Known, label_eq distinct member]
      exact ⟨sets, base, found, rfl⟩

include distinct member sets in
theorem tripleCheck_facts (made : call ∈ tripleCheck env.sampler newEmo) :
    (∀ merged, call.Merges env.emoBases start roots after.label merged →
      Relation.ReflTransGen (Sets env.emoBases start roots) newEmo.baseId merged) ∧
    call.Known env.emoBases start roots after.label := by
  unfold tripleCheck at made
  split at made
  · cases made
  · rw [List.mem_singleton.mp made, Task.Known, label_eq distinct member]
    refine ⟨fun merged merges => ?_, sets⟩
    rwa [Task.Merges, label_eq distinct member] at merges

include distinct member sets fielded in
theorem arrival_cost_le :
    costs account after.label (arrivalCalls env.sampler newEmo base.typ ++
      tripleCheck env.sampler newEmo) ≤
      account.own newEmo.baseId + boardEmoMaxCount * account.answer newEmo.baseId +
        if newEmo.attributes.isTriple then 0
        else account.own newEmo.baseId + boardEmoMaxCount * account.answer newEmo.baseId := by
  have label := label_eq distinct member
  rw [costs_append, arrivalCalls, costs_append]
  refine Nat.add_le_add (Nat.add_le_add ?_ ?_) ?_
  · rw [costs, List.map_map]
    exact Nat.le_trans (Nat.le_of_eq (setActions_cost newEmo)) (fielded.accounted.own sets)
  · simp [costs, Task.cost, label]
  · unfold tripleCheck
    split <;> simp [costs, Task.cost, label]

include steady keyed distinct sets found fielded in
/-- A new emo, after others were taken off the board that the task may merge. -/
theorem arrival_leaves {board : ShopBoard} {emoIndex : Nat} {tail : List (Task env.sampler)}
    (part : board.Sublist before.board) (bound : emoIndex ≤ board.length)
    (inserted : after.board = board.insertIdx emoIndex newEmo)
    (atBase : AtBase env.emoBases newEmo) (returns : ∀ call ∈ tail, call.IsReturn)
    (merges : ∀ merged, Relation.ReflTransGen (Sets env.emoBases start roots) newEmo.baseId merged →
      task.Merges env.emoBases start roots before.label merged)
    (kept : (spared (task.Merges env.emoBases start roots before.label) before.line).Sublist
      board.identities)
    (cost : (account.own newEmo.baseId + boardEmoMaxCount * account.answer newEmo.baseId +
        if newEmo.attributes.isTriple then 0
        else account.own newEmo.baseId + boardEmoMaxCount * account.answer newEmo.baseId) ≤
      task.cost account before.label) :
    Leaves env start roots account task before after
      (arrivalCalls env.sampler newEmo base.typ ++ tripleCheck env.sampler newEmo ++ tail) := by
  have member : newEmo ∈ after.board := by
    rw [inserted]
    exact (List.mem_insertIdx bound).mpr (.inl rfl)
  have arrival {call : Task env.sampler}
      (made : call ∈ arrivalCalls env.sampler newEmo base.typ) :=
    arrivalCalls_facts steady keyed distinct member sets found fielded made
  have check {call : Task env.sampler} (made : call ∈ tripleCheck env.sampler newEmo) :=
    @tripleCheck_facts env start roots after newEmo call distinct member sets made
  have checked {line : List Identity} (present : newEmo.id ∈ line.map Identity.id) :
      Prepared env.emoBases start roots after.label line (tripleCheck env.sampler newEmo) := by
    unfold tripleCheck
    split
    · trivial
    · exact ⟨present, trivial⟩
  have longer : board.identities.Sublist after.line := by
    rw [ShopState.line, inserted]
    exact (List.sublist_insertIdx ..).map _
  refine ⟨?_, ?_, fun call made => ?_, 0, ?_, fun emo present => ?_⟩
  · refine Prepared.append (Prepared.append ?_ (checked (new_spared steady sets member)) ?_)
      (prepared_returns returns) (.refl _)
    · exact prepared_of_finds (fun call made => (arrival made).1)
        fun call made => (arrival made).2.1
    · refine spared_mono (.refl _) fun merged within => ?_
      obtain ⟨call, made, within⟩ := within
      exact (arrival made).1 merged within
  · have twice := @spared_spared before.line (task.Merges env.emoBases start roots before.label)
      (task.Merges env.emoBases start roots before.label)
    simp only [or_self] at twice
    rw [← twice]
    refine spared_mono (kept.trans longer) fun merged within => ?_
    obtain ⟨call, made, within⟩ := within
    rcases List.mem_append.mp made with made | last
    · rcases List.mem_append.mp made with made | made
      · exact merges merged ((arrival made).1 merged within).to_reflTransGen
      · exact merges merged ((check made).1 merged within)
    · exact absurd within (returns call last).not_merges
  · rcases List.mem_append.mp made with made | last
    · rcases List.mem_append.mp made with made | made
      · exact (arrival made).2.2
      · exact (check made).2
    · exact (returns call last).known
  · rw [Nat.zero_add, costs_append, costs_returns returns, Nat.add_zero]
    exact Nat.le_trans (arrival_cost_le distinct member sets fielded) cost
  · rw [inserted] at present
    rcases List.eq_or_mem_of_mem_insertIdx present with rfl | old
    · exact .inr ⟨fielded, atBase⟩
    · exact .inl ⟨emo, part.subset old, .refl emo 0⟩

end New

/-- A merge only takes emos that the task may merge. -/
theorem spared_sublist_filter {baseId : Nat} {merges : Nat → Prop} (merged : merges baseId)
    (board : ShopBoard) : (spared merges board.identities).Sublist
      (ShopBoard.identities (board.filter fun emo => !isSameBaseNotTriple baseId emo)) := by
  rw [spared, ShopBoard.identities, List.filter_map, ShopBoard.identities]
  refine (List.monotone_filter_right board fun emo stays => ?_).map _
  rw [Bool.not_eq_true', isSameBaseNotTriple, Bool.and_eq_false_iff]
  by_cases same : baseId = emo.baseId
  · subst same
    simpa [ShopBoardEmo.identity, merged] using stays
  · exact .inl (decide_eq_false same)

/-! ## Tasks -/

section Performing

variable (steady : Steady env.emoBases start roots) (keyed : KeyedBases env.emoBases)
variable (covers : Covers env.emoBases start roots account expected)
variable (distinct : before.board.emoIds.Nodup) (distinctAfter : after.board.emoIds.Nodup)
variable (fielded : ∀ emo ∈ before.board, Fielded env.emoBases start roots account emo)

include steady keyed covers distinctAfter in
/-- `add_emo` up to its calls, as a task that may set the base. -/
theorem addEmoCalls_leaves {mtcEmoIds : List Nat} {baseId emoIndex : Nat} {isTriple : Bool}
    {tail : List (Task env.sampler)} {emoPointer : EmoPointer} {isTripleAction : Bool}
    (sets : InPlay env.emoBases start roots (.acts (.setEmo baseId)))
    (returns : ∀ call ∈ tail, call.IsReturn)
    (added : addEmoCalls env mtcEmoIds baseId isTriple emoIndex before = .ok (calls, after)) :
    Leaves env start roots account (.callAbilityAction (.setEmo baseId) emoPointer isTripleAction)
      before after (calls ++ tail) := by
  simp only [addEmoCalls, Result.bind_eq_ok_iff, Emo.Bases.find_eq_ok_iff] at added
  obtain ⟨base, found, added⟩ := added
  have same := keyed baseId base found
  subst same
  obtain ⟨fielded, atBase⟩ := @fielded_newWithBase _ _ _ _ _ before.generatedIds _ mtcEmoIds _
    isTriple keyed covers sets found
  obtain ⟨bound, inserted, other, again, rfl⟩ := addEmoWithBoardEmo_calls distinctAfter added
  refine arrival_leaves steady keyed distinctAfter sets again fielded (.refl _) bound inserted
    atBase returns (fun merged leads => ⟨base.id, rfl, leads⟩) spared_sublist ?_
  have price := covers.prices base.id sets
  change _ ≤ account.price base.id
  change account.own base.id + _ * account.answer base.id + ite _ _
    (account.own base.id + _ * account.answer base.id) ≤ _
  split <;> omega

include steady keyed covers distinct distinctAfter in
theorem callAbilityAction_leaves {action : NormalAction} {emoPointer : EmoPointer}
    {isTripleAction : Bool} (small : before.board.length ≤ boardEmoMaxCount)
    (acts : InPlay env.emoBases start roots (.acts action))
    (performed : callAbilityAction env action emoPointer isTripleAction before =
      .ok (calls, after)) :
    Leaves env start roots account (.callAbilityAction action emoPointer isTripleAction) before
      after calls := by
  by_cases isSet : ∃ baseId, action = .setEmo baseId
  · obtain ⟨baseId, rfl⟩ := isSet
    simp only [callAbilityAction, setEmo] at performed
    split at performed
    · simp only [Result.bind_eq_ok_iff, Result.pure_eq_ok_iff, Prod.mk.injEq] at performed
      obtain ⟨index, _, ⟨additionCalls, _⟩, added, rfl, rfl⟩ := performed
      exact addEmoCalls_leaves steady keyed covers distinctAfter acts
        (List.forall_mem_singleton.mpr (.setEmo _)) added
    · cases performed
      exact leaves_nil rfl
  · obtain ⟨rfl, _, raised⟩ := callAbilityAction_raised covers.grades small distinct
      (fun baseId same => isSet ⟨baseId, same⟩) performed
    refine .of_raised (raised.weaken fun ability gives => ?_) trivial (List.forall_mem_nil _)
      (List.forall_mem_nil _) ?_
    · obtain ⟨target, rfl⟩ := gives
      exact ⟨target, acts⟩
    · cases action with
      | setEmo baseId => exact absurd ⟨baseId, rfl⟩ isSet
      | _ => exact Nat.le_refl _

include steady keyed covers distinct distinctAfter fielded in
theorem processTriple_leaves {newEmoId : Nat}
    (sets : InPlay env.emoBases start roots (.acts (.setEmo (before.label newEmoId))))
    (performed : processTriple env newEmoId before = .ok (calls, after)) :
    Leaves env start roots account (.processTriple newEmoId) before after calls := by
  simp only [processTriple, ShopBoard.emosWithIndexes, Result.bind_eq_ok_iff, zipU8_eq_ok_iff]
    at performed
  obtain ⟨⟨target, newEmoIndex⟩, looked, _, ⟨_, rfl⟩, performed⟩ := performed
  obtain ⟨standing, rfl⟩ := ShopBoard.getEmoAndIndexById_found looked
  have label := label_eq distinct (List.mem_of_getElem? standing)
  rw [label] at sets
  split at performed
  · simp only [removeTripleEmos_filter, Result.bind_eq_ok_iff,
      Except.ok.injEq, Result.pure_eq_ok_iff, Prod.mk.injEq] at performed
    obtain ⟨_, rfl, triple, built, tripleIndex, _, ⟨additionCalls, _⟩, added, rfl, rfl⟩ := performed
    obtain ⟨bound, inserted, base, found, rfl⟩ := addEmoWithBoardEmo_calls distinctAfter added
    simp only [ShopState.addLog_board] at bound inserted
    have isTriple := (buildTripleEmo_triple built).isTriple
    have same := (buildTripleEmo_triple built).baseId_eq keyed
    obtain ⟨tripleFielded, atBase⟩ := (buildTripleEmo_triple built).fielded keyed sets
      (fun emo source => (mem_sources source).2) covers
      fun emo source => fielded emo (mem_sources source).1
    rw [← same] at sets label
    refine arrival_leaves steady keyed distinctAfter sets found tripleFielded List.filter_sublist
      bound inserted atBase (List.forall_mem_singleton.mpr (.processTriple _))
      (fun merged leads => ?_) ?_ ?_
    · rwa [Task.Merges, label]
    · refine spared_sublist_filter ?_ before.board
      rw [Task.Merges, label, same]
    · rw [Task.cost, label, isTriple]
      exact Nat.le_refl _
  · cases performed
    exact leaves_nil rfl

include steady keyed covers distinct distinctAfter fielded in
/-- What every task leaves for those that wait. -/
theorem perform_leaves (small : before.board.length ≤ boardEmoMaxCount)
    (finds : task.Finds env.emoBases start roots before.line)
    (known : task.Known env.emoBases start roots before.label)
    (performed : perform env task before = .ok (calls, after)) :
    Leaves env start roots account task before after calls := by
  cases task with
  | callPreAbilities rng abilities => exact callPreAbilities_leaves distinct finds known performed
  | callAbilityActionAsOneself action actionEmoPointer =>
      simp only [perform, callAbilityActionAsOneself, Result.bind_eq_ok_iff,
        Result.pure_eq_ok_iff, Prod.mk.injEq] at performed
      obtain ⟨actionEmo, _, rfl, rfl⟩ := performed
      exact .of_same rfl ⟨finds, trivial⟩ (List.forall_mem_singleton.mpr fun _ => id)
        (List.forall_mem_singleton.mpr known) (Nat.le_refl _)
  | callAbilityActionAsAlly action oneselfEmoId allyEmoPointer =>
      obtain ⟨_, allyEmoId, rfl, ally⟩ := finds
      cases action with
      | oneselfTripleNormal action =>
          simp only [perform, callAbilityActionAsAlly, Result.bind_eq_ok_iff,
            Result.pure_eq_ok_iff, Prod.mk.injEq] at performed
          obtain ⟨oneselfEmo, _, rfl, rfl⟩ := performed
          exact .of_same rfl ⟨ally, trivial⟩ (List.forall_mem_singleton.mpr fun _ => id)
            (List.forall_mem_singleton.mpr known) (Nat.le_refl _)
      | custom action =>
          cases action
          exact triggerSetActions_leaves steady keyed distinct fielded known performed
  | callAbilityAction action actionEmoPointer isTripleAction =>
      exact callAbilityAction_leaves steady keyed covers distinct distinctAfter small known
        performed
  | callBoardAdditionAbilities newEmoId newEmoTyp isNewEmoTriple =>
      cases performed
      exact callBoardAdditionAbilities_leaves steady keyed small distinct fielded finds known
  | processTriple newEmoId =>
      exact processTriple_leaves steady keyed covers distinct distinctAfter fielded known performed
  | setEmoReturn gottenCoin =>
      cases performed
      exact leaves_nil rfl
  | processTripleReturn gottenCoin =>
      cases performed
      exact leaves_nil rfl

end Performing

end Leaving

end EmojiBattler.Mtc.Shop
