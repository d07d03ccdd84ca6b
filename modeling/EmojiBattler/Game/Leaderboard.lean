import EmojiBattler.Library.Keyed
import EmojiBattler.Library.Ranking
import EmojiBattler.Game.Functions

/-! # The leaderboard

The leaderboard is the top hundred of the ranking of all accounts by the best
EP they have reached. -/

namespace EmojiBattler.Game

open Ranking

variable {A : Type} [DecidableEq A]

theorem scanLeaderboard_eq {ep : Nat} {account : A} {rest : List (Nat × A)}
    (distinct : (rest.map Prod.snd).Nodup) (index : Nat) (newPosIndexOpt : Option Nat) :
    scanLeaderboard ep account rest index none newPosIndexOpt =
      if Beaten rest (ep, account) then none
      else some ((rest.findIdx? fun entry => entry.2 = account).map (· + index),
        newPosIndexOpt <|> (rest.findIdx? fun entry => entry.1 ≤ ep).map (· + index)) := by
  induction rest generalizing index newPosIndexOpt with
  | nil => simp [scanLeaderboard, Beaten]
  | cons entry rest ih =>
      obtain ⟨iterEp, iterAccount⟩ := entry
      rw [List.map_cons, List.nodup_cons] at distinct
      by_cases same : iterAccount = account
      · subst same
        by_cases higher : ep < iterEp
        · have beaten : Beaten ((iterEp, iterAccount) :: rest) (ep, iterAccount) :=
            ⟨_, List.mem_cons_self, rfl, higher⟩
          rw [if_pos beaten, scanLeaderboard, if_pos ⟨rfl, higher⟩]
        · have unbeaten : ¬ Beaten ((iterEp, iterAccount) :: rest) (ep, iterAccount) := by
            rintro ⟨better, member, same, lower⟩
            rcases List.mem_cons.mp member with rfl | later
            · exact higher lower
            · exact distinct.1 (List.mem_map.mpr ⟨better, later, same⟩)
          have lower : iterEp ≤ ep := Nat.le_of_not_lt higher
          rw [if_neg unbeaten, scanLeaderboard, if_neg fun both => higher both.2]
          cases newPosIndexOpt <;> simp [List.findIdx?_cons, lower]
      · have beaten_iff : Beaten ((iterEp, iterAccount) :: rest) (ep, account) ↔
            Beaten rest (ep, account) := by
          constructor
          · rintro ⟨better, member, found, lower⟩
            rcases List.mem_cons.mp member with rfl | later
            · exact absurd found same
            · exact ⟨better, later, found, lower⟩
          · rintro ⟨better, member, found, lower⟩
            exact ⟨better, List.mem_cons_of_mem _ member, found, lower⟩
        rw [scanLeaderboard, if_neg fun both => same both.1]
        simp only [if_neg same, Option.isSome_none, Bool.false_eq_true, false_and, if_false,
          ih distinct.2, beaten_iff]
        have shifted (found : Option Nat) :
            (found.map fun i => i + 1).map (· + index) = found.map (· + (index + 1)) := by
          rw [Option.map_map]
          exact congrArg (Option.map · found) (funext fun i => by simp only [Function.comp]; omega)
        have other : decide ((iterEp, iterAccount).2 = account) = false := decide_eq_false same
        simp only [List.findIdx?_cons, other, Bool.false_eq_true, if_false, shifted]
        by_cases lower : iterEp ≤ ep
        · cases newPosIndexOpt <;> simp [lower]
        · simp [lower, shifted]

/-! ## Positions in a ranking -/

omit [DecidableEq A] in
theorem orderedInsert_eq_insertIdx (call : Nat × A) (board : List (Nat × A)) :
    board.orderedInsert Before call =
      match board.findIdx? fun entry => entry.1 ≤ call.1 with
      | some index => board.insertIdx index call
      | none => board ++ [call] := by
  induction board with
  | nil => rfl
  | cons entry rest ih =>
      rw [List.orderedInsert_cons, List.findIdx?_cons]
      by_cases lower : entry.1 ≤ call.1
      · have before : Before call entry := lower
        rw [if_pos before, if_pos (decide_eq_true lower)]
        rfl
      · have after : ¬ Before call entry := lower
        rw [if_neg after, if_neg (by simpa using lower), ih]
        cases rest.findIdx? fun entry => entry.1 ≤ call.1 <;> rfl

theorem others_eq_eraseIdx {account : A} {board : List (Nat × A)} {index : Nat}
    (distinct : (board.map Prod.snd).Nodup)
    (found : (board.findIdx? fun entry => entry.2 = account) = some index) :
    others board account = board.eraseIdx index := by
  induction board generalizing index with
  | nil => cases found
  | cons entry rest ih =>
      rw [List.map_cons, List.nodup_cons] at distinct
      rw [List.findIdx?_cons] at found
      by_cases own : entry.2 = account
      · rw [if_pos (decide_eq_true own)] at found
        cases found
        rw [others, List.filter_cons_of_neg (by simpa using own), List.eraseIdx_cons_zero]
        exact others_eq_self fun other member same =>
          distinct.1 (List.mem_map.mpr ⟨other, member, same.trans own.symm⟩)
      · rw [if_neg (by simpa using own), Option.map_eq_some_iff] at found
        obtain ⟨position, found, rfl⟩ := found
        rw [others, List.filter_cons_of_pos (by simpa using own), List.eraseIdx_cons_succ,
          ← ih distinct.2 found]
        rfl

/-- The entry of the account moves up to the place of its new EP. -/
theorem orderedInsert_others_eq {call : Nat × A} {board : List (Nat × A)} {same new : Nat}
    (sorted : board.Pairwise Before) (distinct : (board.map Prod.snd).Nodup)
    (unbeaten : ¬ Beaten board call)
    (foundSame : (board.findIdx? fun entry => entry.2 = call.2) = some same)
    (foundNew : (board.findIdx? fun entry => entry.1 ≤ call.1) = some new) :
    (others board call.2).orderedInsert Before call =
      (board.eraseIdx same).insertIdx new call := by
  induction board generalizing same new with
  | nil => cases foundSame
  | cons entry rest ih =>
      rw [List.map_cons, List.nodup_cons] at distinct
      rw [List.pairwise_cons] at sorted
      rw [List.findIdx?_cons] at foundSame foundNew
      have unbeatenRest : ¬ Beaten rest call := by
        rintro ⟨better, member, same, lower⟩
        exact unbeaten ⟨better, List.mem_cons_of_mem _ member, same, lower⟩
      by_cases own : entry.2 = call.2
      · have lower : entry.1 ≤ call.1 := by
          by_contra higher
          exact unbeaten ⟨entry, List.mem_cons_self, own, Nat.lt_of_not_le higher⟩
        rw [if_pos (decide_eq_true own)] at foundSame
        rw [if_pos (decide_eq_true lower)] at foundNew
        cases foundSame
        cases foundNew
        have absent : ∀ other ∈ rest, other.2 ≠ call.2 := fun other member found =>
          distinct.1 (List.mem_map.mpr ⟨other, member, found.trans own.symm⟩)
        have dropped : others (entry :: rest) call.2 = rest := by
          rw [others, List.filter_cons_of_neg (by simpa using own)]
          exact others_eq_self absent
        rw [dropped, List.eraseIdx_cons_zero, List.insertIdx_zero]
        cases rest with
        | nil => rfl
        | cons next later =>
            exact List.orderedInsert_cons_of_le _ _
              (Nat.le_trans (sorted.1 next List.mem_cons_self) lower)
      · rw [if_neg (by simpa using own), Option.map_eq_some_iff] at foundSame
        obtain ⟨index, foundSame, rfl⟩ := foundSame
        have kept : others (entry :: rest) call.2 = entry :: others rest call.2 :=
          List.filter_cons_of_pos (by simpa using own)
        rw [kept, List.eraseIdx_cons_succ, List.orderedInsert_cons]
        by_cases lower : entry.1 ≤ call.1
        · have before : Before call entry := lower
          rw [if_pos (decide_eq_true lower)] at foundNew
          cases foundNew
          rw [if_pos before, List.insertIdx_zero, others_eq_eraseIdx distinct.2 foundSame]
        · have after : ¬ Before call entry := lower
          rw [if_neg (by simpa using lower), Option.map_eq_some_iff] at foundNew
          obtain ⟨position, foundNew, rfl⟩ := foundNew
          rw [if_neg after, List.insertIdx_succ_cons, ih sorted.2 distinct.2 unbeatenRest
            foundSame foundNew]

/-! ## Updates -/

/-- On a sorted board of different accounts, an update enters the call and
forgets what falls off the end. -/
theorem updateLeaderboard_enters {ep : Nat} {account : A} {board : List (Nat × A)}
    (sorted : board.Pairwise Before) (distinct : (board.map Prod.snd).Nodup)
    (bounded : board.length ≤ leaderboardSize) :
    ∃ result, updateLeaderboard board ep account = .ok result ∧
      result.getD board = (enter board (ep, account)).take leaderboardSize := by
  have scanned : scanLeaderboard ep account board 0 none none =
      if Beaten board (ep, account) then none
      else some (board.findIdx? fun entry => entry.2 = account,
        board.findIdx? fun entry => entry.1 ≤ ep) := by
    simp [scanLeaderboard_eq distinct]
  unfold updateLeaderboard enter
  rw [scanned]
  by_cases beaten : Beaten board (ep, account)
  · rw [if_pos beaten, if_pos beaten]
    exact ⟨none, rfl, (List.take_of_length_le bounded).symm⟩
  rw [if_neg beaten, if_neg beaten]
  cases foundSame : board.findIdx? fun entry => entry.2 = account with
  | some same =>
      obtain ⟨bound, own⟩ := Keyed.key_of_findIdx?_eq_some foundSame
      have lower : board[same].1 ≤ ep := by
        by_contra higher
        exact beaten ⟨_, List.getElem_mem bound, own, Nat.lt_of_not_le higher⟩
      obtain ⟨new, foundNew⟩ :
          ∃ new, (board.findIdx? fun entry => entry.1 ≤ ep) = some new := by
        rw [← Option.isSome_iff_exists, List.findIdx?_isSome]
        exact List.any_eq_true.mpr ⟨_, List.getElem_mem bound, decide_eq_true lower⟩
      obtain ⟨_, _, first⟩ := List.findIdx?_eq_some_iff_getElem.mp foundNew
      have le : new ≤ same := by
        by_contra later
        exact first same (Nat.lt_of_not_le later) (decide_eq_true lower)
      have moved : (board.eraseIdx same).insertIdx new (ep, account) =
          (others board account).orderedInsert Before (ep, account) :=
        (orderedInsert_others_eq sorted distinct beaten foundSame foundNew).symm
      have whole : ((board.eraseIdx same).insertIdx new (ep, account)).length ≤
          leaderboardSize := by
        rw [List.length_insertIdx_of_le_length (by rw [List.length_eraseIdx_of_lt bound]; omega),
          List.length_eraseIdx_of_lt bound]
        omega
      have replaced : (board.eraseIdx same).insertIdx same (ep, account) =
          board.set same (ep, account) := List.insertIdx_eraseIdx_self (Nat.ne_of_lt bound) _
      rw [← moved, List.take_of_length_le whole, foundNew]
      simp only [List.getElem?_eq_getElem bound, okOr, bind, Except.bind]
      split
      · rename_i unchanged
        refine ⟨none, rfl, ?_⟩
        have same_entry : (ep, account) = board[same] := Prod.ext unchanged.2.symm own.symm
        rw [← unchanged.1, replaced, same_entry, List.set_getElem_self]
        rfl
      · rename_i changed
        split
        · exact ⟨_, rfl, rfl⟩
        · rename_i notEarlier
          have equal : new = same := by omega
          exact ⟨_, rfl, by rw [equal, replaced]; rfl⟩
  | none =>
      rw [others_eq_self (Keyed.key_ne_of_findIdx?_eq_none foundSame), orderedInsert_eq_insertIdx]
      cases foundNew : board.findIdx? fun entry => entry.1 ≤ ep with
      | some new => exact ⟨_, rfl, rfl⟩
      | none =>
          dsimp only
          split
          · rename_i short
            have fits : (board ++ [(ep, account)]).length ≤ leaderboardSize := by
              rw [List.length_append, List.length_singleton]
              exact short
            exact ⟨_, rfl, (List.take_of_length_le fits).symm⟩
          · rename_i full
            refine ⟨none, rfl, ?_⟩
            have length : board.length = leaderboardSize := by omega
            rw [← length, List.take_left]
            rfl

/-- The leaderboard stays when there is no new one. -/
def enterLeaderboard (board : List (Nat × A)) (call : Nat × A) : Result (List (Nat × A)) := do
  let leaderboardOpt ← updateLeaderboard board call.1 call.2
  return leaderboardOpt.getD board

/-- Any sequence of updates succeeds and leads to the top of the ranking. -/
theorem leaderboard_top (calls : List (Nat × A)) :
    ∃ board, calls.foldlM enterLeaderboard [] = .ok board ∧ Top 100 calls board := by
  have continued (rest : List (Nat × A)) : ∀ {done ranking : List (Nat × A)},
      Ranked done ranking →
      rest.foldlM enterLeaderboard (ranking.take leaderboardSize) =
        .ok ((rest.foldl enter ranking).take leaderboardSize) := by
    induction rest with
    | nil => exact fun _ => rfl
    | cons call rest ih =>
        intro done ranking ranked
        obtain ⟨result, updated, entered⟩ := @updateLeaderboard_enters _ _ call.1 call.2 _
          (ranked.sorted.sublist (List.take_sublist leaderboardSize _))
          (ranked.distinct.sublist ((List.take_sublist leaderboardSize _).map _))
          (List.length_take_le _ _)
        have step : enterLeaderboard (ranking.take leaderboardSize) call =
            .ok ((enter ranking call).take leaderboardSize) := by
          simp only [enterLeaderboard, updated, bind, Except.bind]
          rw [entered]
          exact congrArg Except.ok (take_enter ranked.sorted ranked.distinct leaderboardSize)
        rw [List.foldlM_cons, List.foldl_cons, step]
        exact ih (ranked.enter call)
  have ranked : Ranked calls (calls.foldl enter []) := ranked_nil.foldl calls
  exact ⟨_, continued calls ranked_nil, ranked.top 100⟩

end EmojiBattler.Game
