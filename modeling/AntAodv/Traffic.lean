import AntAodv.Packet

/-!
# The traffic model of an agent

`update_traffic` and `get_win_size` of `antnet.cc`, with the types of
`antnet_traffic.h`: the window of trip times to every destination, the mean, the
variance and the best trip time kept for it, and the values given to the shared
factor `r`.
-/

namespace AntAodv

/-- `VARSIGMA`. -/
def varsigma {K : Type} [Field K] : K := 5 / 1000

/-- `c1`. -/
def c1 {K : Type} [Field K] : K := 7 / 10

/-- `c2`. -/
def c2 {K : Type} [Field K] : K := 3 / 10

/-- `zee`. -/
def zee {K : Type} [Field K] : K := 17 / 10

/-- `traffic_matrix`. -/
structure TrafficMatrix (K : Type) where
  meanTt : K
  varTt : K
  bestTt : K
  deriving DecidableEq

/-- `window_` and `state_` of an agent, with the values its calls have assigned to
`r`, oldest first. -/
structure Traffic (K : Type) where
  window : NsAddr → Option (List K)
  state : NsAddr → Option (TrafficMatrix K)
  assigned : List K

/-- What `update_traffic` leaves undefined or unguarded. -/
inductive TrafficFault where
  | memory (fault : Fault)
  /-- An entry of `window_` or `state_` is used that is not there. -/
  | absent (dest : NsAddr)
  /-- The first sample of an empty window is read. -/
  | emptyWindow
  | divisionByZero
  /-- `sqrt` of a negative number. -/
  | negativeRoot
  deriving DecidableEq

namespace Traffic

variable {K : Type}

/-- The model of an agent just constructed. -/
def init : Traffic K := ⟨fun _ => none, fun _ => none, []⟩

def ofMemory {α : Type} : Except Fault α → Except TrafficFault α
  | .ok value => .ok value
  | .error fault => .error (.memory fault)

/-- `(*window_.find(dest)).second`. -/
def findWindow (dest : NsAddr) (t : Traffic K) : Except TrafficFault (List K) :=
  match t.window dest with
  | some winTt => .ok winTt
  | none => .error (.absent dest)

/-- `state_[dest]`, where the entry is to be there already. -/
def findState (dest : NsAddr) (t : Traffic K) : Except TrafficFault (TrafficMatrix K) :=
  match t.state dest with
  | some entry => .ok entry
  | none => .error (.absent dest)

def getWinSize (dest : NsAddr) (t : Traffic K) : Except TrafficFault ℕ := do
  let winTt ← t.findWindow dest
  .ok winTt.length

/-- Update the sample window. -/
def updateWindow (dest : NsAddr) (tt : K) (t : Traffic K) : Traffic K :=
  { t with
    window := Function.update t.window dest <| match t.window dest with
      | some winTt => some (winTt ++ [tt])
      | none => some [tt] }

section Field

variable [Field K]

def divide [DecidableEq K] (x y : K) : Except TrafficFault K :=
  if y = 0 then .error .divisionByZero else .ok (x / y)

/-- The entry of a destination after the sample `tt`. -/
def observe (mintt tt : K) : Option (TrafficMatrix K) → TrafficMatrix K
  | some entry =>
      let oldtt := entry.meanTt
      let oldvar := entry.varTt
      { meanTt := oldtt + varsigma * (tt - oldtt)
        varTt := oldvar * oldvar +
          varsigma * ((tt - oldtt) * (tt - oldtt) - oldvar * oldvar)
        bestTt := mintt }
  | none => { meanTt := tt, varTt := tt, bestTt := mintt }

variable [LinearOrder K]

def root (sqrt : K → K) (x : K) : Except TrafficFault K :=
  if x < 0 then .error .negativeRoot else .ok (sqrt x)

/-- Find the best trip time of a window. -/
def findBest : List K → Except TrafficFault K
  | [] => .error .emptyWindow
  | first :: rest =>
      .ok ((first :: rest).foldl (fun mintt tt => if tt < mintt then tt else mintt) first)

/-- Update the mean, the variance and the best trip time. -/
def updateState (dest : NsAddr) (tt : K) (t : Traffic K) : Except TrafficFault (Traffic K) := do
  let winTt ← t.findWindow dest
  let mintt ← findBest winTt
  .ok { t with
    state := Function.update t.state dest (some (observe mintt tt (t.state dest))) }

/-- Find `r`. -/
def findR (sqrt : K → K) (dest : NsAddr) (tt : K) (t : Traffic K) :
    Except TrafficFault (Traffic K) := do
  let entry ← t.findState dest
  let wBest := entry.bestTt
  let iInf := wBest
  let mu := entry.meanTt
  let sigma ← root sqrt entry.varTt
  let w ← t.getWinSize dest
  let rootW ← root sqrt w
  let spread ← divide sigma rootW
  let iSup := mu + zee * spread
  if iSup = iInf ∧ iInf = tt then
    .ok { t with assigned := t.assigned ++ [0] }
  else
    let ratio ← divide wBest tt
    let share ← divide (iSup - iInf) ((iSup - iInf) + (tt - iInf))
    .ok { t with assigned := t.assigned ++ [c1 * ratio + c2 * share] }

/-- The three loops of `update_traffic`: `body` for the destination and the trip
time of each of `count` slots from `index` on. -/
def forSlots (ah : HdrAntPkt K) (initialtt : K)
    (body : NsAddr → K → Traffic K → Except TrafficFault (Traffic K)) :
    (index count : ℕ) → Traffic K → Except TrafficFault (Traffic K)
  | _, 0, t => .ok t
  | index, count + 1, t => do
      let entry ← ofMemory (ah.read index)
      let t ← body entry.nodeAddr (entry.tripTime - initialtt) t
      forSlots ah initialtt body (index + 1) count t

/-- Method to update the traffic model of the node `addr`. -/
def updateTraffic (sqrt : K → K) (addr : NsAddr) (ah : HdrAntPkt K) (t : Traffic K) :
    Except TrafficFault (Traffic K) := do
  let i ← ofMemory (HdrAntPkt.scanUnbounded addr 0 ah.pktMemory)
  let self ← ofMemory (ah.read i)
  let initialtt := self.tripTime
  let i := i + 1
  -- the node next to this one is read here and used nowhere
  let _next ← ofMemory (ah.read i)
  let count := ah.pktMemSize - i
  let t ← forSlots ah initialtt (fun dest tt t => .ok (t.updateWindow dest tt)) i count t
  let t ← forSlots ah initialtt updateState i count t
  forSlots ah initialtt (findR sqrt) i count t

/-- Calls of `update_traffic`, one for each ant in order. -/
def updateAll (sqrt : K → K) (addr : NsAddr) : List (HdrAntPkt K) → Traffic K →
    Except TrafficFault (Traffic K)
  | [], t => .ok t
  | ah :: ants, t => do
      let t ← t.updateTraffic sqrt addr ah
      t.updateAll sqrt addr ants

end Field

end Traffic

end AntAodv
