import AntAodv.Common

/-!
# The routing table of an agent

`antnet_rtable.cc`: the rows of pheromone values, their initialisation and
update, and the random choices made from them.
-/

namespace AntAodv

/-- `struct pheromone`. -/
structure Pheromone (K : Type) where
  neighbor : NsAddr
  phvalue : K
  deriving DecidableEq

/-- `pheromone_matrix`: the row of one destination. -/
abbrev PheromoneMatrix (K : Type) := List (Pheromone K)

/-- `rtable_t`. -/
abbrev Rtable (K : Type) := NsAddr → Option (PheromoneMatrix K)

/-- How a call of `calc_next` ends. -/
inductive NextHop where
  | ret (next : NsAddr)
  /-- Control runs off the end of the function. -/
  | offEnd
  /-- The draws given are used up and the `do`-`while` loop still runs. -/
  | looping
  deriving DecidableEq

/-- The variables `lrange`, `urange` and `thisprob` of `calc_next`. -/
structure Ranges (K : Type) where
  lrange : K
  urange : K
  thisprob : K

namespace Rtable

variable {K : Type}

def addEntry (rt : Rtable K) (dest next : NsAddr) (phvalue : K) : Rtable K :=
  let tempPheromone : Pheromone K := ⟨next, phvalue⟩
  Function.update rt dest <| match rt dest with
    | none => some [tempPheromone]
    | some temp => some (temp ++ [tempPheromone])

/-- The loop of `update` over one row, with the shared factor `r`. -/
def updateRow [Arithmetic K] (r : K) (next : NsAddr) (row : PheromoneMatrix K) :
    PheromoneMatrix K :=
  row.map fun entry =>
    let oldph := entry.phvalue
    if entry.neighbor = next then { entry with phvalue := oldph + r * (1 - oldph) }
    else { entry with phvalue := (1 - r) * oldph }

def update [Arithmetic K] (r : K) (rt : Rtable K) (dest next : NsAddr) : Rtable K :=
  Function.update rt dest <| match rt dest with
    | some row => some (updateRow r next row)
    | none => none

/-- The raw outputs of the generator are drawn until the result differs from
`source`; `none` while they all give `source`. -/
def calcDestination (sim : Sim) (numNodes : ℤ) (source : NsAddr) : List ℕ → Option NsAddr
  | [] => none
  | raw :: raws =>
      let tmpInt := sim.uniform raw numNodes
      if tmpInt = source then calcDestination sim numNodes source raws else some tmpInt

section CalcNext

variable [Arithmetic K]

/-- `thisprob`, which both passes compute and nothing reads. -/
def thisprob (n : ℤ) (qtotal thisph : K) (thisqueue : ℕ) : K :=
  (thisph + alpha * (1 - thisqueue / qtotal)) / (1 + alpha * (n - 1))

variable [LinearOrder K]

/-- The total queue length of a row's links, with one in place of zero. -/
def qtotal (queue : NsAddr → ℕ) (row : PheromoneMatrix K) : K :=
  let sum : K := (row.map fun entry => (queue entry.neighbor : K)).sum
  if sum = 0 then 1 else sum

/-- The first pass: it stops at the first entry of `parent`. -/
def parentRange (n : ℤ) (queue : NsAddr → ℕ) (qtotal : K) (parent : NsAddr) :
    Ranges K → PheromoneMatrix K → Ranges K
  | ranges, [] => ranges
  | ranges, entry :: row =>
      let thisph := entry.phvalue
      let ranges := { ranges with
        thisprob := thisprob n qtotal thisph (queue entry.neighbor) }
      if entry.neighbor = parent then
        { ranges with urange := ranges.lrange + thisph }
      else
        parentRange n queue qtotal parent
          { ranges with lrange := ranges.lrange + thisph } row

/-- The draws of the `do`-`while` loop: the first outside `[lrange, urange)`. -/
def drawOutside (lrange urange : K) : List K → Option K
  | [] => none
  | tmpDouble :: draws =>
      if tmpDouble ≥ lrange ∧ tmpDouble < urange then drawOutside lrange urange draws
      else some tmpDouble

/-- The second pass: the neighbour whose range contains the draw. -/
def nextInRange (n : ℤ) (queue : NsAddr → ℕ) (qtotal tmpDouble : K) :
    Ranges K → PheromoneMatrix K → NextHop
  | _, [] => .offEnd
  | ranges, entry :: row =>
      let thisph := entry.phvalue
      let ranges := { ranges with
        thisprob := thisprob n qtotal thisph (queue entry.neighbor)
        urange := ranges.urange + thisph }
      if tmpDouble ≥ ranges.lrange ∧ tmpDouble < ranges.urange then .ret entry.neighbor
      else nextInRange n queue qtotal tmpDouble { ranges with lrange := ranges.urange } row

def calcNext (sim : Sim) (n : ℤ) (rt : Rtable K) (source dest parent : NsAddr)
    (draws : List K) : NextHop :=
  match rt dest with
  | none => .offEnd
  | some row =>
      let queue := sim.getQueueLength source
      let qtotal : K := qtotal queue row
      let ranges := parentRange n queue qtotal parent ⟨0, 0, 0⟩ row
      let urange := if ranges.urange = 0 then 1 else ranges.urange
      -- dead end, loopback
      if ranges.lrange = 0 ∧ urange = 1 then .ret parent
      else
        match drawOutside ranges.lrange urange draws with
        | none => .looping
        | some tmpDouble =>
            nextInRange n queue qtotal tmpDouble ⟨0, 0, ranges.thisprob⟩ row

end CalcNext

end Rtable

end AntAodv
