import EmojiBattler.Front.Animation
import EmojiBattler.Front.Match

/-! # The battle that the front shows

The page of a battle runs the march against one ghost on its own, animates its
logs and then takes the damage from the healths that it shows.  The contract
runs the same march first and then lets the other ghosts fight. -/

namespace EmojiBattler.Front

open EmojiBattler.Emo EmojiBattler.Mtc EmojiBattler.Mtc.Storage EmojiBattler.Game
open EmojiBattler.Mtc.Shop (KeyedBases)

def getHealthFromState : GhostState → Nat
  | .active health => health
  | .retired _ => 0

/-- The healths that the page shows in the end. -/
structure ShownHealths where
  player : Int
  rival : Int
deriving DecidableEq

/-- `animateFinish` without the animations. -/
def animateFinish (playerGrade rivalGrade playerBoardGrade rivalBoardGrade playerHealth
    rivalHealth : Nat) : ShownHealths :=
  if playerBoardGrade ≠ 0 then
    { player := playerHealth, rival := rivalHealth - (playerBoardGrade + playerGrade : Int) }
  else if rivalBoardGrade ≠ 0 then
    { player := playerHealth - (rivalBoardGrade + rivalGrade : Int), rival := rivalHealth }
  else { player := playerHealth, rival := rivalHealth }

/-- The grade and the board of the ghost that is battled. -/
def WholeMtcState.gradeAndBoardGhost (mtcState : WholeMtcState) : Result GradeAndGhostBoard := do
  let ghost ← okOr mtcState.ghosts[mtcState.battleGhostIndex]? .indexOutOfBounds
  let ghostState ← okOr mtcState.ghostStates[mtcState.battleGhostIndex]? .indexOutOfBounds
  getGradeAndGhostBoard ghost.history ghostState mtcState.turn

/-- The texts of the two `PlayerBox`. -/
def playerBoxes (rivalGrade playerGrade : Nat) : Except PageError Unit := do
  getGradeText rivalGrade
  getGradeText playerGrade

/-- The components `Battle` and `MtcBattleBoards`.  What the march ends with is
shown only after the animation.  Returns the state of the id generator as
well. -/
def showBattle (env : Env) (schedule : MtcBattleBoards.Schedule) (names : EmojiNames)
    (fuel : Nat) (mtcState : WholeMtcState) (generatedIds : Nat) :
    Fueled (Except PageError ShownHealths × Nat) := do
  let gradeAndBoardGhost ← Fueled.of mtcState.gradeAndBoardGhost
  let ghostState ←
    Fueled.of (okOr mtcState.ghostStates[mtcState.battleGhostIndex]? .indexOutOfBounds)
  match playerBoxes gradeAndBoardGhost.grade mtcState.grade with
  | .error error => return (.error error, generatedIds)
  | .ok () => do
      let (boardGrade, ghostBoardGrade, state) ← marchPvg env fuel mtcState.board
        gradeAndBoardGhost.board mtcState.seed generatedIds
      let shown := do
        let _ ← MtcBattleBoards.animate schedule names env.emoBases mtcState.board
          gradeAndBoardGhost.board state.logs
        return animateFinish mtcState.grade gradeAndBoardGhost.grade boardGrade ghostBoardGrade
          mtcState.health (getHealthFromState ghostState)
      return (shown, state.generatedIds)

/-- The state of the ghost that is shown with a health after the battle. -/
def shownState (turn : Nat) (rivalHealth : Int) : GhostState :=
  if rivalHealth ≤ 0 then .retired turn else .active rivalHealth.toNat

section Damage

variable {env : Env} {fuel seed generatedIds : Nat}

/-- At most one board is left in the end. -/
theorem march_one_sided {board0 board1 : List Battle.BattleEmo} {grades0 grades1 : Nat}
    {last : Battle.St env}
    (marched : Battle.march env fuel board0 board1 seed generatedIds =
      pure (grades0, grades1, last)) : grades0 = 0 ∨ grades1 = 0 := by
  simp only [Battle.march, Fueled.bind_eq_pure_iff, Fueled.of_eq_pure_iff, okOr_eq_ok_iff,
    Fueled.pure_eq_pure_iff] at marched
  obtain ⟨after, _, _, remaining, ⟨left, right⟩, rfl, same⟩ := marched
  cases same
  simp only [Battle.getRemainingGradesIfFinished] at remaining
  split at remaining
  · rename_i finished
    simp only [Result.bind_eq_ok_iff, Result.pure_eq_ok_iff, Option.some.injEq,
      Prod.mk.injEq] at remaining
    obtain ⟨_, summed0, _, summed1, rfl, rfl⟩ := remaining
    simp only [Bool.or_eq_true, Battle.BattleBoards.isEmptyBoard, List.isEmpty_iff] at finished
    rcases finished with empty | empty
    · rw [empty] at summed0
      cases summed0
      exact .inl rfl
    · rw [empty] at summed1
      cases summed1
      exact .inr rfl
  · cases remaining

theorem damageHealth_eq {boardGrade grade health damaged : Nat}
    (performed : damageHealth boardGrade grade health = .ok damaged) :
    damaged = if boardGrade = 0 then health else health - (boardGrade + grade) := by
  unfold damageHealth at performed
  by_cases lost : boardGrade = 0
  · rw [if_neg (by omega)] at performed
    cases performed
    rw [if_pos lost]
  · rw [if_pos (by omega), Result.bind_eq_ok_iff] at performed
    obtain ⟨damage, added, performed⟩ := performed
    obtain ⟨_, rfl⟩ := addU8_eq_ok_iff.mp added
    cases performed
    rw [if_neg lost]

/-- The damage that is shown is the one that is stored.  Below zero the front
shows a debt. -/
theorem animateFinish_stored {playerGrade rivalGrade playerBoardGrade rivalBoardGrade playerHealth
    rivalHealth damaged turn : Nat} {state : GhostState}
    (oneSided : playerBoardGrade = 0 ∨ rivalBoardGrade = 0) (alive : 1 ≤ rivalHealth)
    (rivalDamaged : damageGhostHealth playerBoardGrade playerGrade (.active rivalHealth) turn =
      .ok state)
    (playerDamaged : damagePlayerHealth rivalBoardGrade rivalGrade playerHealth = .ok damaged) :
    let shown := animateFinish playerGrade rivalGrade playerBoardGrade rivalBoardGrade playerHealth
      rivalHealth
    damaged = shown.player.toNat ∧ state = shownState turn shown.rival := by
  simp only [damageGhostHealth, Result.bind_eq_ok_iff, Result.pure_eq_ok_iff] at rivalDamaged
  obtain ⟨left, rivalDamaged, rfl⟩ := rivalDamaged
  have rivalLeft := damageHealth_eq rivalDamaged
  have playerLeft := damageHealth_eq playerDamaged
  unfold animateFinish shownState
  by_cases won : playerBoardGrade = 0
  · rw [if_pos won] at rivalLeft
    subst rivalLeft
    by_cases lost : rivalBoardGrade = 0
    · rw [if_pos lost] at playerLeft
      simp only [won, lost, ne_eq, not_true_eq_false, if_false, playerLeft]
      exact ⟨by omega, by rw [if_neg (by omega), if_neg (by omega)]; simp⟩
    · rw [if_neg lost] at playerLeft
      simp only [won, lost, ne_eq, not_true_eq_false, not_false_eq_true, if_true, if_false,
        playerLeft]
      exact ⟨by omega, by rw [if_neg (by omega), if_neg (by omega)]; simp⟩
  · rw [if_neg won] at rivalLeft
    rw [if_pos (oneSided.resolve_left won)] at playerLeft
    simp only [won, ne_eq, not_false_eq_true, if_true, playerLeft, rivalLeft]
    refine ⟨by omega, ?_⟩
    by_cases retired : rivalHealth ≤ playerBoardGrade + playerGrade
    · rw [if_pos (by omega), if_pos (by omega)]
    · rw [if_neg (by omega), if_neg (by omega)]
      congr 1
      omega

end Damage

/-! ## The march of the contract -/

section Battles

variable {env : Env} {fuel grade health turn seed generatedIds damaged last index : Nat}
variable {board : Board} {ghosts : List Ghost} {ghostStates after : List GhostState}
variable {state : GhostState}

/-- The battled ghost comes first, and no state is taken twice. -/
theorem buildGhostSets_head {sets : List (Ghost × GhostState × Nat)}
    (complete : ghostStates.length ≤ ghosts.length)
    (built : buildGhostSets ghosts ghostStates index = .ok sets) :
    (sets.map fun set => set.2.2).Nodup ∧ ∀ {ghost state place rest},
      sets = (ghost, state, place) :: rest →
        place = index ∧ ghosts[index]? = some ghost ∧ ghostStates[index]? = some state := by
  have places : ((ghosts.zip ghostStates.zipIdx).map fun set => set.2.2).Nodup := by
    have listed : (ghosts.zip ghostStates.zipIdx).map (fun set => set.2.2) =
        List.range' 0 ghostStates.length := by
      have zipped : (ghosts.zip ghostStates.zipIdx).map Prod.snd = ghostStates.zipIdx :=
        List.map_snd_zip (by rwa [List.length_zipIdx])
      rw [← List.zipIdx_map_snd]
      nth_rewrite 2 [← zipped]
      rw [List.map_map]
      rfl
    rw [listed]
    exact List.nodup_range'
  have found : ∀ {ghost state place}, (ghosts.zip ghostStates.zipIdx)[index]? =
      some (ghost, state, place) →
        place = index ∧ ghosts[index]? = some ghost ∧ ghostStates[index]? = some state := by
    intro ghost state place found
    rw [List.getElem?_zip_eq_some, List.getElem?_zipIdx, Nat.zero_add] at found
    obtain ⟨foundGhost, foundState⟩ := found
    obtain ⟨_, placed, same⟩ := Option.map_eq_some_iff.mp foundState
    cases same
    exact ⟨rfl, foundGhost, placed⟩
  unfold buildGhostSets at built
  dsimp only at built
  split at built
  · rename_i other
    refine ⟨((swapElements_perm built).map _).nodup_iff.mpr places, ?_⟩
    intro ghost state place rest same
    simp only [swapElements, Result.bind_eq_ok_iff, okOr_eq_ok_iff, Result.pure_eq_ok_iff] at built
    obtain ⟨x, foundX, y, foundY, rfl⟩ := built
    have head := congrArg (·[0]?) same
    rw [List.getElem?_set_ne (by omega), List.getElem?_set_self
      (List.getElem?_eq_some_iff.mp foundX).1] at head
    cases head
    exact found foundY
  · rename_i first
    cases built
    refine ⟨places, ?_⟩
    intro ghost state place rest same
    have zero : index = 0 := Decidable.not_not.mp first
    refine found ?_
    rw [same, zero]
    rfl

theorem eq_of_length_le_one {values : List α} {x y : α} (single : values.length ≤ 1)
    (left : x ∈ values) (right : y ∈ values) : x = y := by
  rcases values with _ | ⟨value, _ | ⟨_, _⟩⟩
  · cases left
  · rw [List.mem_singleton.mp left, List.mem_singleton.mp right]
  · simp at single

/-- Whatever else a turn does, its first battle is the one against the battled
ghost. -/
theorem battleGhosts_pvg {rivalHealth : Nat} (complete : ghostStates.length ≤ ghosts.length)
    (opponent : ghostStates[index]? = some (.active rivalHealth))
    (battled : battleGhosts env fuel board grade health ghosts ghostStates index turn seed
      generatedIds = pure (damaged, after, last)) :
    ∃ ghost state ids, ghosts[index]? = some ghost ∧
      battlePvg env fuel grade health board (.active rivalHealth) ghost.history turn seed
        generatedIds = pure (damaged, state, ids) ∧ after[index]? = some state := by
  have bound := (List.getElem?_eq_some_iff.mp opponent).1
  unfold battleGhosts at battled
  split at battled
  · simp only [battlePvgAndGvg, Fueled.bind_eq_pure_iff, Fueled.of_eq_pure_iff] at battled
    obtain ⟨sets, built, battled⟩ := battled
    obtain ⟨distinct, head⟩ := buildGhostSets_head complete built
    rcases sets with _ | ⟨⟨ghost0, state0, place0⟩, _ | ⟨⟨ghost1, state1, place1⟩,
      _ | ⟨⟨ghost2, state2, place2⟩, rest⟩⟩⟩
    · cases battled
    · cases battled
    · cases battled
    · simp only [Fueled.bind_eq_pure_iff, Fueled.pure_eq_pure_iff, Prod.mk.injEq] at battled
      obtain ⟨⟨_, after0, ids⟩, pvg, ⟨after1, after2, _⟩, _, rfl, rfl, _⟩ := battled
      obtain ⟨rfl, foundGhost, foundState⟩ := head rfl
      cases opponent.symm.trans foundState
      refine ⟨ghost0, after0, ids, foundGhost, pvg, ?_⟩
      simp only [List.map_cons, List.nodup_cons, List.mem_cons, not_or] at distinct
      obtain ⟨⟨other1, other2, _⟩, _⟩ := distinct
      rw [List.getElem?_set_ne (Ne.symm other2), List.getElem?_set_ne (Ne.symm other1),
        List.getElem?_set_self bound]
  · rename_i single
    simp only [battleLastGhost, Fueled.bind_eq_pure_iff, Fueled.of_eq_pure_iff, okOr_eq_ok_iff,
      Fueled.pure_eq_pure_iff, Prod.mk.injEq] at battled
    obtain ⟨⟨state, place⟩, found, ghost, foundGhost, ⟨_, changed, ids⟩, pvg, rfl, rfl, _⟩ :=
      battled
    have placed := List.mem_zipIdx_iff_getElem?.mp (List.mem_of_find?_eq_some found)
    have active := List.find?_some found
    -- Both are the only place of an active state.
    have same : place = index := by
      refine @eq_of_length_le_one _
        ((ghostStates.zipIdx.filter fun entry => entry.1.isActive).map Prod.snd) _ _ ?_ ?_ ?_
      · rw [Positions.length_filter_zipIdx]
        omega
      · exact Positions.mem_filter_zipIdx.mpr ⟨state, placed, active⟩
      · exact Positions.mem_filter_zipIdx.mpr ⟨_, opponent, rfl⟩
    subst same
    cases opponent.symm.trans placed
    exact ⟨ghost, changed, ids, foundGhost, pvg, List.getElem?_set_self bound⟩

end Battles

/-! ## What the front shows -/

/-- The march of the battle, run anew. -/
structure Marches (env : Env) (fuel : Nat) (mtcState : WholeMtcState) (generatedIds : Nat)
    (rival : GradeAndGhostBoard) (boardGrade ghostBoardGrade : Nat) (state : Battle.St env) :
    Prop where
  selected : mtcState.gradeAndBoardGhost = .ok rival
  marched : marchPvg env fuel mtcState.board rival.board mtcState.seed generatedIds =
    pure (boardGrade, ghostBoardGrade, state)

/-- The page has all texts that it shows, and a mark for every special ability. -/
structure BattleShowable (names : EmojiNames) (emoBases : Bases) (mtcState : WholeMtcState)
    (rival : GradeAndGhostBoard) (logs : List Battle.Log) : Prop where
  rivalGrade : 1 ≤ rival.grade ∧ rival.grade ≤ 6
  playerGrade : 1 ≤ mtcState.grade ∧ mtcState.grade ≤ 6
  animated : MtcBattleBoards.Showable names emoBases mtcState.board rival.board logs

section Shown

variable {env : Env} {fuel generatedIds rivalHealth boardGrade ghostBoardGrade : Nat}
variable {mtcState : WholeMtcState} {rival : GradeAndGhostBoard} {state : Battle.St env}

theorem playerBoxes_eq_ok_iff {rivalGrade playerGrade : Nat} :
    playerBoxes rivalGrade playerGrade = .ok () ↔
      (1 ≤ rivalGrade ∧ rivalGrade ≤ 6) ∧ 1 ≤ playerGrade ∧ playerGrade ≤ 6 := by
  simp only [playerBoxes, Result.bind_eq_ok_iff, getGradeText_eq_ok_iff]
  constructor
  · rintro ⟨⟨⟩, shown, below⟩
    exact ⟨getGradeText_eq_ok_iff.mp shown, below⟩
  · rintro ⟨shown, below⟩
    exact ⟨(), getGradeText_eq_ok_iff.mpr shown, below⟩

/-- The page shows the end of the battle, or it throws before.  On regular
boards and bases it throws exactly where something cannot be shown. -/
theorem Marches.shows (marches : Marches env fuel mtcState generatedIds rival boardGrade
      ghostBoardGrade state)
    (opponent : mtcState.ghostStates[mtcState.battleGhostIndex]? = some (.active rivalHealth))
    (schedule : MtcBattleBoards.Schedule) (names : EmojiNames) :
    ∃ shown ids, showBattle env schedule names fuel mtcState generatedIds = pure (shown, ids) ∧
      (∀ healths, shown = .ok healths → healths = animateFinish mtcState.grade rival.grade
        boardGrade ghostBoardGrade mtcState.health rivalHealth) ∧
      (env.isViewLogsEnabled = true → Battle.RegularBases env.emoBases →
        (∀ entry ∈ boardEntries mtcState.board ++ ghostBoardEntries rival.board,
          Battle.Regular entry.2) →
        ((∃ healths, shown = .ok healths) ↔
          BattleShowable names env.emoBases mtcState rival state.logs)) := by
  cases boxes : playerBoxes rival.grade mtcState.grade with
  | error error =>
      refine ⟨.error error, generatedIds, ?_, fun healths ended => ?_, fun _ _ _ => ?_⟩
      · simp only [showBattle, Fueled.bind_eq_pure_iff, Fueled.of_eq_pure_iff, okOr_eq_ok_iff]
        refine ⟨rival, marches.selected, _, opponent, ?_⟩
        rw [boxes]
      · cases ended
      · refine iff_of_false ?_ fun showable => ?_
        · rintro ⟨healths, ended⟩
          cases ended
        rw [playerBoxes_eq_ok_iff.mpr ⟨showable.rivalGrade, showable.playerGrade⟩] at boxes
        cases boxes
  | ok _ =>
      obtain ⟨rivalGrade, playerGrade⟩ := playerBoxes_eq_ok_iff.mp boxes
      have shows : ∃ ids, showBattle env schedule names fuel mtcState generatedIds =
          pure ((fun _ => animateFinish mtcState.grade rival.grade boardGrade ghostBoardGrade
            mtcState.health rivalHealth) <$> MtcBattleBoards.animate schedule names env.emoBases
              mtcState.board rival.board state.logs, ids) := by
        refine ⟨state.generatedIds, ?_⟩
        simp only [showBattle, Fueled.bind_eq_pure_iff, Fueled.of_eq_pure_iff, okOr_eq_ok_iff]
        refine ⟨rival, marches.selected, _, opponent, ?_⟩
        rw [boxes]
        simp only [Fueled.bind_eq_pure_iff]
        refine ⟨_, marches.marched, ?_⟩
        rw [Fueled.pure_eq_pure_iff, map_eq_pure_bind]
        rfl
      obtain ⟨ids, shows⟩ := shows
      refine ⟨_, ids, shows, fun healths shown => ?_, fun enabled bases regular => ?_⟩
      · obtain ⟨_, _, rfl⟩ := Result.map_eq_ok_iff.mp shown
        rfl
      · obtain ⟨finishes, throws⟩ := MtcBattleBoards.march_animates schedule names enabled bases
          regular marches.marched
        constructor
        · rintro ⟨healths, shown⟩
          refine ⟨rivalGrade, playerGrade, ?_⟩
          by_contra unshowable
          obtain ⟨error, failed⟩ := throws unshowable
          rw [failed] at shown
          cases shown
        · intro showable
          obtain ⟨elements, animated, _⟩ := finishes showable.animated
          exact ⟨_, by rw [animated]; rfl⟩

/-- The front runs the same march as the end of the battle, which leaves the
healths that the page shows. -/
theorem Finishes.marches {lastIds : Nat} {next : WholeMtcState} {place : Option Nat}
    (finishes : Finishes env fuel mtcState generatedIds next lastIds place)
    (complete : mtcState.ghostStates.length ≤ mtcState.ghosts.length)
    (opponent : mtcState.ghostStates[mtcState.battleGhostIndex]? = some (.active rivalHealth))
    (alive : 1 ≤ rivalHealth) (shownIds : Nat) :
    ∃ rival boardGrade ghostBoardGrade state,
      Marches env fuel mtcState shownIds rival boardGrade ghostBoardGrade state ∧
      ∀ healths, healths = animateFinish mtcState.grade rival.grade boardGrade ghostBoardGrade
        mtcState.health rivalHealth →
        next.health = healths.player.toNat ∧
        next.ghostStates[mtcState.battleGhostIndex]? =
          some (shownState mtcState.turn healths.rival) := by
  have ended : ∃ health states, battleGhosts env fuel mtcState.board mtcState.grade mtcState.health
      mtcState.ghosts mtcState.ghostStates mtcState.battleGhostIndex mtcState.turn mtcState.seed
      generatedIds = pure (health, states, lastIds) ∧
        next.health = health ∧ next.ghostStates = states := by
    cases finishes with
    | ended battled same | goesOn battled _ same =>
        simp only [battleAll, Fueled.bind_eq_pure_iff, Fueled.of_eq_pure_iff,
          Fueled.pure_eq_pure_iff, Prod.mk.injEq] at battled
        obtain ⟨_, battled, _, _, _, rfl, rfl, rfl⟩ := battled
        subst same
        exact ⟨_, _, battled, rfl, rfl⟩
  obtain ⟨health, states, battled, rfl, rfl⟩ := ended
  obtain ⟨ghost, state, ids, found, pvg, placed⟩ := battleGhosts_pvg complete opponent battled
  simp only [battlePvg, Fueled.bind_eq_pure_iff, Fueled.of_eq_pure_iff, Fueled.pure_eq_pure_iff,
    Prod.mk.injEq] at pvg
  obtain ⟨ghostBoard, selected, ⟨boardGrade, ghostBoardGrade, marchLast⟩, marched, _, ghostDamaged,
    _, playerDamaged, rfl, rfl, _⟩ := pvg
  have together : (Battle.Naming.shifting generatedIds shownIds).Together generatedIds shownIds :=
    ⟨0, rfl, rfl⟩
  obtain ⟨shownLast, shownMarch, _⟩ := @Battle.marchPvg_renamed _ env.isViewLogsEnabled _ _ _ _ _ _
    _ _ _ _ together marched
  have oneSided : boardGrade = 0 ∨ ghostBoardGrade = 0 := by
    simp only [marchPvg, Fueled.bind_eq_pure_iff] at marched
    obtain ⟨_, _, _, _, marched⟩ := marched
    exact march_one_sided marched
  obtain ⟨stored, left⟩ := animateFinish_stored oneSided alive ghostDamaged playerDamaged
  refine ⟨ghostBoard, boardGrade, ghostBoardGrade, shownLast, ⟨?_, shownMarch⟩, ?_⟩
  · simp only [WholeMtcState.gradeAndBoardGhost, Result.bind_eq_ok_iff, okOr_eq_ok_iff]
    exact ⟨ghost, found, _, opponent, selected⟩
  · rintro healths rfl
    exact ⟨stored, by rw [placed, left]⟩

end Shown

variable {AccountId : Type} [DecidableEq AccountId]

/-- The rival of a turn is alive. -/
theorem InStep.opponent {chain : Chain AccountId} {emoBases : Bases} {player : AccountId}
    {contract : Contract AccountId} {mtcState : WholeMtcState}
    (inStep : InStep chain emoBases player contract mtcState) :
    mtcState.ghostStates.length ≤ mtcState.ghosts.length ∧ ∃ rivalHealth,
      mtcState.ghostStates[mtcState.battleGhostIndex]? = some (.active rivalHealth) ∧
        1 ≤ rivalHealth := by
  obtain ⟨mutable, found, shows⟩ := inStep.agrees.mutable
  have immutable := inStep.agrees.immutable
  simp only [playerMtcImmutable, Option.bind_eq_bind, Option.bind_eq_some_iff, Option.pure_def,
    Option.some.injEq, Prod.mk.injEq] at immutable
  obtain ⟨immutable, foundImmutable, _, ghosts⟩ := immutable
  have ready : MatchReady immutable mutable :=
    (inStep.reached.accounts player).ready foundImmutable found
  obtain ⟨rivalHealth, opponent⟩ := ready.opponent
  have within := ready.within _ (List.mem_of_getElem? opponent)
  rw [shows.ghostStates, shows.battleGhostIndex] at opponent
  refine ⟨?_, rivalHealth, opponent, within⟩
  rw [← shows.ghostStates, ready.states, ← ghosts, List.length_map, ready.ghosts]

/-- A match is over when the player is dead or no ghost is left. -/
theorem battleAll_over {env : Env} {fuel grade health turn seed generatedIds place damaged last
    index : Nat} {board : Board} {ghosts : List Ghost} {ghostStates after : List GhostState}
    (battled : battleAll env fuel board health ghostStates grade ghosts index turn seed
      generatedIds = pure (some place, damaged, after, last)) :
    damaged = 0 ∨ ∀ state ∈ after, state.isActive = false := by
  simp only [battleAll, Fueled.bind_eq_pure_iff, Fueled.of_eq_pure_iff, Fueled.pure_eq_pure_iff,
    Prod.mk.injEq] at battled
  obtain ⟨_, _, _, calculated, rfl, rfl, rfl, rfl⟩ := battled
  unfold calcFinalPlace at calculated
  dsimp only at calculated
  split at calculated
  · rename_i without
    refine without.imp_right fun retired state member => ?_
    have inactive := List.all_eq_true.mp retired state member
    rwa [Bool.not_eq_true'] at inactive
  · cases calculated

/-- In every turn that the contract accepts, the page of the battle shows the
healths of the player and of the rival that the contract stores, with what is
below zero as zero and a rival without health as retired, or it throws.  On
regular boards and bases it throws exactly where it has no text or no mark for
something that it comes to. -/
theorem shown_battle_is_stored {chain : Chain AccountId} {emoBases : Bases} {player : AccountId}
    {contract after : Contract AccountId} {mtcState : WholeMtcState} {context : Context AccountId}
    {fuel shopIds : Nat} {buttons : List Button} {last : ShopSession} (keyed : KeyedBases emoBases)
    (together : Together chain emoBases player contract mtcState) (caller : context.caller = player)
    (plays : PlaysShop (frontEnv chain emoBases) fuel mtcState shopIds buttons last)
    (accepted : contract.finishMtcShop chain context fuel last.session.shopState.playerOperations =
      pure after) (schedule : MtcBattleBoards.Schedule) (names : EmojiNames) (shownIds : Nat) :
    ∃ seed rival boardGrade ghostBoardGrade state shown ids, after.playerSeed player = some seed ∧
      Marches (frontEnv chain emoBases) fuel (mtcState.startBattle last seed) shownIds rival
        boardGrade ghostBoardGrade state ∧
      showBattle (frontEnv chain emoBases) schedule names fuel (mtcState.startBattle last seed)
        shownIds = pure (shown, ids) ∧
      (Battle.RegularBases emoBases →
        (∀ entry ∈ boardEntries (mtcState.startBattle last seed).board ++
          ghostBoardEntries rival.board, Battle.Regular entry.2) →
        ((∃ healths, shown = .ok healths) ↔
          BattleShowable names emoBases (mtcState.startBattle last seed) rival state.logs)) ∧
      ∀ healths, shown = .ok healths →
        (∀ mutable, after.playerMtcMutable player = some mutable →
          mutable.health = healths.player.toNat ∧
          mutable.ghostStates[mtcState.battleGhostIndex]? =
            some (shownState mtcState.turn healths.rival)) ∧
        (after.playerMtcMutable player = none → healths.player ≤ 0 ∨ healths.rival ≤ 0) := by
  subst caller
  have inStep := together.inStep keyed
  obtain ⟨origin, early⟩ := inStep.origin_and_early accepted
  obtain ⟨next, place, lastIds, finishes, newSeed, settles, _⟩ :=
    inStep.accepted keyed origin early plays accepted 0
  obtain ⟨complete, rivalHealth, opponent, alive⟩ := inStep.opponent
  obtain ⟨rival, boardGrade, ghostBoardGrade, state, marches, leaves⟩ :=
    finishes.marches complete opponent alive shownIds
  obtain ⟨shown, ids, shows, finished, showable⟩ := marches.shows opponent schedule names
  obtain ⟨_, _, _, _, _, turn, _⟩ := inStep.finishMtcShop_account keyed origin early plays
  have sameTurn : (mtcState.startBattle last (chain.hashEncoded "finish_mtc_shop" context.caller
      context.blockTimestamp)).turn = mtcState.turn := turn
  refine ⟨_, rival, boardGrade, ghostBoardGrade, state, shown, ids, newSeed, marches, shows,
    showable rfl, fun healths ended => ?_⟩
  obtain ⟨player, rivalLeft⟩ := leaves healths (finished healths ended)
  rw [sameTurn] at rivalLeft
  refine ⟨fun mutable found => ?_, fun gone => ?_⟩
  · cases place with
    | some place =>
        rw [settles.1] at found
        cases found
    | none =>
        obtain ⟨stored, foundStored, shows⟩ := settles.mutable
        cases found.symm.trans foundStored
        rw [shows.health, shows.ghostStates]
        exact ⟨player, rivalLeft⟩
  · cases finishes with
    | goesOn battled selected same =>
        obtain ⟨stored, found, _⟩ := settles.mutable
        rw [gone] at found
        cases found
    | ended battled same =>
        subst same
        rcases battleAll_over battled with dead | retired
        · exact .inl (by dsimp only at player; omega)
        · refine .inr (Int.not_lt.mp fun left => ?_)
          have still := retired _ (List.mem_of_getElem? rivalLeft)
          rw [shownState, if_neg (by omega)] at still
          cases still

open FirstTurn in
/-- The battle of the first turn of a match, shown to its end. -/
theorem shown_battle_is_stored_first :
    ∃ (contract after : Contract Nat) (schedule : MtcBattleBoards.Schedule) (names : EmojiNames)
      (shown : WholeMtcState) (mutable : PlayerMutable) (healths : ShownHealths) (ids : Nat),
      contract.finishMtcShop chain ⟨0, true, 1, 5⟩ 20 [.buy 35 0] = pure after ∧
      showBattle (frontEnv chain bases) schedule names 20 shown 3 = pure (.ok healths, ids) ∧
      after.playerMtcMutable 0 = some mutable ∧ mutable.health = healths.player.toNat := by
  let names : EmojiNames := ⟨fun base => 0x1F600 + base.id, fun emoji => emoji ≤ 0x1F60B⟩
  let reversed : MtcBattleBoards.Schedule :=
    ⟨fun _ params => params.reverse, fun _ params => params.reverse_perm⟩
  obtain ⟨contract, mtcState, last, next, lastIds, startedAt, played, together, turn, plays,
    operations, ended, _⟩ := exists_firstTurn
  have inStep := together.inStep keyed
  obtain ⟨after, accepted⟩ := @InStep.accepts _ _ _ _ _ _ _ _ _ _ _ ⟨0, true, 1, 5⟩ _ _ _ inStep
    keyed rfl (by omega) plays (finishBattle_eq_pure_iff.mp ended)
  obtain ⟨_, _, _, finishes, givenSeed, settles, _⟩ :=
    inStep.accepted keyed rfl (by omega) plays accepted 9
  have same := ended.symm.trans (finishBattle_eq_pure_iff.mpr finishes)
  rw [Fueled.pure_eq_pure_iff, Prod.mk.injEq, Prod.mk.injEq] at same
  obtain ⟨rfl, rfl, rfl⟩ := same
  obtain ⟨mutable, found, _⟩ := settles.mutable
  obtain ⟨seed, _, _, _, _, shown, ids, newSeed, _, shows, _, stored⟩ :=
    shown_battle_is_stored keyed together rfl plays accepted reversed names 3
  cases givenSeed.symm.trans newSeed
  have finished : started.any fun mtcState => (shop mtcState).any fun last =>
      (showBattle (frontEnv chain bases) reversed names 20 (mtcState.startBattle last 5)
        3).value?.any fun ending => ending.1.toBool := by
    decide +kernel
  rw [startedAt, Option.any_some, played, Option.any_some] at finished
  obtain ⟨ending, showsFinished, finished⟩ := Fueled.exists_of_value? finished
  cases shows.symm.trans showsFinished
  obtain ⟨healths, rfl⟩ : ∃ healths, shown = .ok healths := by
    cases shown with
    | ok healths => exact ⟨healths, rfl⟩
    | error error => cases finished
  rw [operations] at accepted
  exact ⟨contract, after, reversed, names, _, mutable, healths, ids, accepted, shows, found,
    ((stored healths rfl).1 mutable found).1⟩

end EmojiBattler.Front
