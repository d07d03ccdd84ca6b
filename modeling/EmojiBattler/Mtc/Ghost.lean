import EmojiBattler.Mtc.Utils

/-! # EP and ghosts -/

namespace EmojiBattler.Mtc

open Sampling

/-! ## EP -/

def initialEp : Nat := 300

def epBandwidth : Nat := 100

def maxEp : Nat := u16Max

def minEp : Nat := 1

def epUnfinishPenalty : Nat := 60

def getEpBand (ep : Nat) : Nat := ep / epBandwidth

def reduceEp (ep minus : Nat) : Nat :=
  let e := ep - minus
  if minEp < e then e else minEp

/-! ## Choosing ghosts -/

def ghostCount : Nat := 3

/-- The first loop of `choose_ghosts`: the bands from the player's own down,
until they hold enough ghosts. -/
def collectGhostsInfos (getGhostsInfo : Nat → Option (List A)) :
    Nat → List (Nat × List A) → List (Nat × List A)
  | epBand, ghostsInfos =>
      match getGhostsInfo epBand with
      | some v =>
          let ghostsInfos := ghostsInfos ++ [(epBand, v)]
          if ghostCount ≤ (ghostsInfos.map fun info => info.2.length).sum then ghostsInfos
          else
            match epBand with
            | 0 => ghostsInfos
            | epBand + 1 => collectGhostsInfos getGhostsInfo epBand ghostsInfos
      | none =>
          match epBand with
          | 0 => ghostsInfos
          | epBand + 1 => collectGhostsInfos getGhostsInfo epBand ghostsInfos

/-- The second loop of `choose_ghosts`. -/
def chooseFromGhostsInfos (sampler : Sampler) (getGhost : Nat × Nat → Option Ghost) :
    List (Nat × List A) → List (A × Ghost) → sampler.Rng →
      Result (List (A × Ghost) × sampler.Rng)
  | [], choosenGhosts, rng => return (choosenGhosts, rng)
  | (band, v) :: rest, choosenGhosts, rng => do
      let indexed ← zipU8 v
      let (choosen, rng) :=
        sampler.chooseMultipleFrom rng indexed (ghostCount - choosenGhosts.length)
      let ghosts ← choosen.mapM fun (a, index) => do
        let ghost ← okOr (getGhost (band, index)) (.panicked "get_ghost")
        return (a, ghost)
      chooseFromGhostsInfos sampler getGhost rest (choosenGhosts ++ ghosts) rng

def chooseGhosts (sampler : Sampler) (ep seed : Nat) (getGhostsInfo : Nat → Option (List A))
    (getGhost : Nat × Nat → Option Ghost) : Result (List (Option (A × Ghost))) := do
  let ghostsInfos := collectGhostsInfos getGhostsInfo (getEpBand ep) []
  let (choosenGhosts, rng) ←
    chooseFromGhostsInfos sampler getGhost ghostsInfos [] (sampler.seedFromU64 seed)
  let (shuffled, _) := sampler.shuffleAll rng (choosenGhosts.map some)
  return shuffled ++ List.replicate (ghostCount - choosenGhosts.length) none

/-! ## Ghosts of a history -/

def buildGhostBoardFromBoard (board : Board) : GhostBoard :=
  board.map fun boardEmo => { baseId := boardEmo.baseId, attributes := boardEmo.attributes }

def buildGhostFromHistory (gradeAndBoardHistory : List GradeAndBoard) : Ghost where
  history := gradeAndBoardHistory.map fun h =>
    { grade := h.grade, board := buildGhostBoardFromBoard h.board }

/-- The ghosts and their EPs. -/
def separatePlayerGhosts (playerGhosts : List (T × Nat × Ghost)) : List Ghost × List Nat :=
  (playerGhosts.map fun playerGhost => playerGhost.2.2,
    playerGhosts.map fun playerGhost => playerGhost.2.1)

/-- The band and its ghosts after a registration. -/
def buildMatchmakingGhosts [DecidableEq A] (accountId : A) (ep : Nat)
    (gradeAndBoardHistory : List GradeAndBoard)
    (getMatchmakingGhosts : Nat → Option (List (A × Nat × Ghost))) :
    Nat × List (A × Nat × Ghost) :=
  let epBand := getEpBand ep
  let ghost := buildGhostFromHistory gradeAndBoardHistory
  let ghostsWithData := (getMatchmakingGhosts epBand).getD []
  let ghostsWithData :=
    match ghostsWithData.findIdx? fun ghostWithData => ghostWithData.1 = accountId with
    | some index => ghostsWithData.set index (accountId, ep, ghost)
    | none =>
        if ghostsWithData.length < 20 then ghostsWithData ++ [(accountId, ep, ghost)]
        else ghostsWithData.eraseIdx 0 ++ [(accountId, ep, ghost)]
  (epBand, ghostsWithData)

end EmojiBattler.Mtc
