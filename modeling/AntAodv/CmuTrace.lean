import AntAodv.Library.Printf
import AntAodv.Packet

/-!
# The wireless packet trace

`cmu-trace.cc`: the line `CMUTrace` writes for a packet event, in the default
untagged format and in the format of `newtrace`.  The packet headers are those of
the packet types that have a format of their own; no packet tracer is added
anywhere in the sources, so other types add nothing behind the IP part.
-/

namespace AntAodv

/-! ### Packet types -/

/-- `PT_NTYPE`. -/
def ptNtype : PacketT := 74

/-- The table `p_info::name_`. -/
def packetNames : List String :=
  ["tcp", "udp", "cbr", "audio", "video", "ack", "start", "stop", "prune", "graft", "graftAck",
    "join", "assert", "message", "rtcp", "rtp", "rtProtoDV", "CtrMcast_Encap", "CtrMcast_Decap",
    "SRM", "sa_req", "sa_accept", "sa_conf", "sa_teardown", "live", "sa_reject", "telnet", "ftp",
    "pareto", "exp", "httpInval", "http", "encap", "mftp", "ARP", "MAC", "TORA", "DSR", "AODV",
    "IMEP", "rap_data", "rap_ack", "tcpFriend", "tcpFriendCtl", "ping", "PBC", "diffusion",
    "rtProtoLS", "LDP", "gaf", "ra", "pushback", "PGM", "LMS", "LMS_SETUP", "sctp", "sctp_app1",
    "smac", "xcp", "HDLC", "BellLabsTrace", "AOMDV", "PUMA", "DCCP", "DCCP_Request",
    "DCCP_Response", "DCCP_Ack", "DCCP_Data", "DCCP_DataAck", "DCCP_Close", "DCCP_CloseReq",
    "DCCP_Reset", "MDART", "Ant", "undefined"]

/-- `packet_info.name(ptype)`, for the types of the table. -/
def packetName (ptype : PacketT) : Text := (packetNames.getD ptype "").toList

/-! ### Headers -/

/-- The frames of `hdr_mac802_11` that have a name of their own. -/
inductive MacFrame where
  | rts | cts | ack | beacon
  | commandAssoReq | commandAssoRsp | commandDAssNtf | commandDataReq | commandPIDCNtf
  | commandOrphNtf | commandBconReq | commandCoorRea | commandGTSReq
  | otherControl
  | beacon80211 | assocReq | assocRep | auth | probeReq | probeRep
  | otherManagement
  | other
  deriving DecidableEq

/-- The name of a frame of packet type `PT_MAC`. -/
def MacFrame.name : MacFrame → String
  | .rts => "RTS"
  | .cts => "CTS"
  | .ack => "ACK"
  | .beacon => "BCN"
  | .commandAssoReq => "CM1"
  | .commandAssoRsp => "CM2"
  | .commandDAssNtf => "CM3"
  | .commandDataReq => "CM4"
  | .commandPIDCNtf => "CM5"
  | .commandOrphNtf => "CM6"
  | .commandBconReq => "CM7"
  | .commandCoorRea => "CM8"
  | .commandGTSReq => "CM9"
  | .beacon80211 => "BCN"
  | .assocReq => "ACRQ"
  | .assocRep => "ACRP"
  | .auth => "AUTH"
  | .probeReq => "PRRQ"
  | .probeRep => "PRRP"
  | .otherControl | .otherManagement | .other => "UNKN"

/-- Whether the frame is of type `MAC_Type_Control` or `MAC_Type_Management`. -/
def MacFrame.isControlOrManagement : MacFrame → Bool
  | .other => false
  | _ => true

/-- `hdr_mac802_11`. -/
structure HdrMac80211 where
  frame : MacFrame
  dhDuration : ℤ
  dhRa : ℤ
  dhTa : ℤ
  etherType : ℤ

/-- `hdr_smac::type`. -/
inductive SmacType where
  | rtsPkt | ctsPkt | ackPkt | syncPkt | other
  deriving DecidableEq

def SmacType.name : SmacType → String
  | .rtsPkt => "RTS"
  | .ctsPkt => "CTS"
  | .ackPkt => "ACK"
  | .syncPkt => "SYNC"
  | .other => "UNKN"

/-- `hdr_smac`. -/
structure HdrSmac where
  type : SmacType
  duration : ℚ
  dstAddr : ℤ
  srcAddr : ℤ

/-- `hdr_arp`. -/
structure HdrArp where
  isRequest : Bool
  arpSha : ℤ
  arpSpa : ℤ
  arpTha : ℤ
  arpTpa : ℤ

/-- An entry of `down_links()`. -/
structure LinkDown where
  tellAddr : ℤ
  fromAddr : ℤ
  toAddr : ℤ

/-- `hdr_sr`. -/
structure HdrSr where
  numAddrs : ℤ
  routeRequest : ℤ
  rtreqSeq : ℤ
  routeReply : ℤ
  routeReplyLen : ℤ
  replyAddrs : ℤ → ℤ
  routeError : ℤ
  numRouteErrors : ℤ
  downLinks : ℤ → LinkDown

/-- `hdr_tcp`. -/
structure HdrTcp where
  seqno : ℤ
  ackno : ℤ

/-- `SctpTrace()[i].eType`. -/
inductive SctpChunk where
  | init | initAck | cookieEcho | cookieAck | data | sack | forwardTsn | hb | hbAck
  deriving DecidableEq

def SctpChunk.char : SctpChunk → Char
  | .init | .initAck | .cookieEcho | .cookieAck => 'I'
  | .data => 'D'
  | .sack => 'S'
  | .forwardTsn => 'R'
  | .hb => 'H'
  | .hbAck => 'B'

/-- An entry of `SctpTrace()`. -/
structure SctpTrace where
  eType : SctpChunk
  uiTsn : ℤ
  usStreamId : ℤ
  usStreamSeqNum : ℤ

/-- `hdr_imep`, with the flags of `imep_block_flags`. -/
structure HdrImep where
  flagAck : Bool
  flagHello : Bool
  flagObject : Bool
  imepLength : ℤ

/-- `hdr_tora` with the header of its type. -/
inductive HdrTora where
  | qry (tqType tqDst : ℤ)
  | upd (tuType tuDst : ℤ) (tuTau : ℚ) (tuOid tuR tuDelta tuId : ℤ)
  | clr (tcType tcDst : ℤ) (tcTau : ℚ) (tcOid : ℤ)
  | other

/-- The types of `hdr_aodv` and of `hdr_aomdv` that share a reply format. -/
inductive ReplyType where
  | rrep | rerr | hello
  deriving DecidableEq

def ReplyType.name : ReplyType → String
  | .rrep => "REPLY"
  | .rerr => "ERROR"
  | .hello => "HELLO"

/-- `hdr_aodv` and `hdr_aomdv`, with the header of its type; the last two fields of
a reply are those of `hdr_aomdv_reply` alone. -/
inductive HdrAodv where
  | request (rqType rqHopCount rqBcastId rqDst rqDstSeqno rqSrc rqSrcSeqno : ℤ)
  | reply (kind : ReplyType) (rpType rpHopCount rpDst rpDstSeqno : ℤ) (rpLifetime : ℚ)
      (rpBcastId rpFirstHop : ℤ)

/-- The headers of a packet that the trace reads. -/
structure Headers where
  cmn : HdrCmn
  optNumForwards : ℤ
  ip : HdrIp
  flowid : ℤ
  mac : HdrMac80211
  smac : HdrSmac
  arp : HdrArp
  sr : HdrSr
  tcp : HdrTcp
  sctp : List SctpTrace
  rtpSeqno : ℤ
  imep : HdrImep
  tora : HdrTora
  aodv : HdrAodv
  aomdv : HdrAodv
  ant : HdrAntPkt ℚ

/-! ### Trace objects and events -/

/-- The type of a trace object. -/
inductive TraceType where
  | send | recv | drop | eot
  deriving DecidableEq

def TraceType.char : TraceType → Char
  | .send => 's'
  | .recv => 'r'
  | .drop => 'D'
  | .eot => 'x'

/-- The names a trace object may have. -/
inductive TraceName where
  | rtr | trp | phy | mac | ifq | agt
  deriving DecidableEq

def TraceName.name : TraceName → String
  | .rtr => "RTR"
  | .trp => "TRP"
  | .phy => "PHY"
  | .mac => "MAC"
  | .ifq => "IFQ"
  | .agt => "AGT"

/-- Whether `tracetype` is `TR_ROUTER`. -/
def TraceName.isRouter : TraceName → Bool
  | .rtr | .trp => true
  | _ => false

/-- The reasons of `cmu-trace.h` for a drop. -/
def dropReasons : List String :=
  ["END", "COL", "DUP", "ERR", "RET", "STA", "BSY", "DST", "SLP", "NRTE", "LOOP", "TTL", "IFQ",
    "TOUT", "CBK", "SAL", "ARP", "FIL", "OUT"]

/-- `EnergyModel`. -/
structure EnergyModel where
  energy : ℚ
  ei : ℚ
  es : ℚ
  et : ℚ
  er : ℚ

/-- A packet that reaches a trace object. -/
structure TraceEvent where
  type : TraceType
  tracename : TraceName
  /-- `src_`, the node of the trace object. -/
  src : ℤ
  newtrace : Bool
  clock : ℚ
  /-- `Simulator::instance().macType()`. -/
  macType : Text
  /-- `Address::instance().get_nodeaddr`. -/
  getNodeaddr : ℤ → ℤ
  x : ℚ
  y : ℚ
  z : ℚ
  /-- The energy model of the node, where the node is there and has one. -/
  energyModel : Option EnergyModel
  p : Headers
  /-- The ant header, and every other, belongs to a type of the table. -/
  ptype_le : p.cmn.ptype ≤ ptNtype
  why : String
  /-- Only drops have a reason. -/
  why_known : why = "---" ∨ type = .drop ∧ why ∈ dropReasons

/-! ### The parts of a line -/

namespace TraceEvent

open Printf

variable (e : TraceEvent)

/-- The event type that is written: forwarded packets have a type of their own. -/
def op : Char :=
  if e.tracename.isRouter ∧ e.type = .send ∧ e.src ≠ e.getNodeaddr e.p.ip.saddr then 'f'
  else e.type.char

/-- The packet type of the default format, with the names of MAC frames. -/
def typeName : Text :=
  if e.p.cmn.ptype = ptMac then e.p.mac.frame.name.toList
  else if e.p.cmn.ptype = ptSmac then e.p.smac.type.name.toList
  else packetName e.p.cmn.ptype

def formatPhy : Text := sprintf " " []

/-- The MAC type, zero for control and management frames of packet type `PT_MAC`. -/
def macEtherType : ℤ :=
  if e.p.cmn.ptype = ptMac ∧ e.p.mac.frame.isControlOrManagement then 0 else e.p.mac.etherType

def formatMac : Text :=
  let args : List Arg :=
    [.int e.p.mac.dhDuration, .int e.p.mac.dhRa, .int e.p.mac.dhTa, .int e.macEtherType]
  if e.newtrace then sprintf "-Ma %x -Md %x -Ms %x -Mt %x " args
  else sprintf " [%x %x %x %x] " args

def formatSmac : Text :=
  sprintf " [%.2f %d %d] " [.double e.p.smac.duration, .int e.p.smac.dstAddr,
    .int e.p.smac.srcAddr]

/-- The energy part of the default format. -/
def formatEnergy : Text :=
  match e.energyModel with
  | none => []
  | some model =>
      sprintf "[energy %f ei %.3f es %.3f et %.3f er %.3f] "
        [.double model.energy, .double model.ei, .double model.es, .double model.et,
          .double model.er]

/-- The beginning of a line in the default format. -/
def formatCommon : Text :=
  sprintf "%c %.9f _%d_ %3s %4s %d %s %d" [.char e.op, .double e.clock, .int e.src,
    .str e.tracename.name.toList, .str e.why.toList, .int e.p.cmn.uid, .str e.typeName,
    .int e.p.cmn.size]

/-- The beginning of a line in the format of `newtrace`. -/
def formatNewCommon : Text :=
  let op := if e.op = 'D' then 'd' else e.op
  let energy := match e.energyModel with
    | none => -1
    | some model => model.energy
  sprintf "%c -t %.9f -Hs %d -Hd %d -Ni %d -Nx %.2f -Ny %.2f -Nz %.2f -Ne %f -Nl %3s -Nw %s "
    [.char op, .double e.clock, .int e.src, .int e.p.cmn.nextHop, .int e.src, .double e.x,
      .double e.y, .double e.z, .double energy, .str e.tracename.name.toList, .str e.why.toList]

def formatMacCommon : Text :=
  if e.newtrace then
    e.formatNewCommon ++ if e.macType = "Mac/SMAC".toList then e.formatSmac else e.formatMac
  else if e.tracename = .phy then e.formatCommon ++ formatPhy
  else
    e.formatCommon ++
      (if "Mac/SMAC".toList <+: e.macType then e.formatSmac else e.formatMac) ++ e.formatEnergy

def formatIp : Text :=
  let src := e.getNodeaddr e.p.ip.saddr
  let dst := e.getNodeaddr e.p.ip.daddr
  if e.newtrace then
    sprintf "-Is %d.%d -Id %d.%d -It %s -Il %d -If %d -Ii %d -Iv %d "
      [.int src, .int e.p.ip.sport, .int dst, .int e.p.ip.dport,
        .str (packetName e.p.cmn.ptype), .int e.p.cmn.size, .int e.p.flowid,
        .int e.p.cmn.uid, .int e.p.ip.ttl]
  else
    sprintf "------- [%d:%d %d:%d %d %d] "
      [.int src, .int e.p.ip.sport, .int dst, .int e.p.ip.dport, .int e.p.ip.ttl,
        .int (if e.p.cmn.nextHop < 0 then 0 else e.p.cmn.nextHop)]

def formatArp : Text :=
  let ah := e.p.arp
  let args : List Arg := [.str (if ah.isRequest then "REQUEST" else "REPLY").toList,
    .int ah.arpSha, .int ah.arpSpa, .int ah.arpTha, .int ah.arpTpa]
  if e.newtrace then sprintf "-P arp -Po %s -Pms %d -Ps %d -Pmd %d -Pd %d " args
  else sprintf "------- [%s %d/%d %d/%d]" args

def formatDsr : Text :=
  let srh := e.p.sr
  let lastErrIndex := if srh.numRouteErrors > 1 then srh.numRouteErrors - 1 else 0
  let lastReplyIndex := if srh.routeReplyLen > 1 then srh.routeReplyLen - 1 else 0
  let link := srh.downLinks lastErrIndex
  let args : List Arg := [.int srh.numAddrs, .int srh.routeRequest, .int srh.rtreqSeq,
    .int srh.routeReply, .int srh.rtreqSeq, .int srh.routeReplyLen, .int (srh.replyAddrs 0),
    .int (srh.replyAddrs lastReplyIndex), .int srh.routeError, .int srh.numRouteErrors,
    .int link.tellAddr, .int link.fromAddr, .int link.toAddr]
  if e.newtrace then
    sprintf "-P dsr -Ph %d -Pq %d -Ps %d -Pp %d -Pn %d -Pl %d -Pe %d->%d -Pw %d -Pm %d -Pc %d -Pb %d->%d "
      args
  else sprintf "%d [%d %d] [%d %d %d %d->%d] [%d %d %d %d->%d]" args

def formatMsg : Text := []

def formatTcp : Text :=
  let args : List Arg := [.int e.p.tcp.seqno, .int e.p.tcp.ackno, .int e.p.cmn.numForwards,
    .int e.p.optNumForwards]
  if e.newtrace then sprintf "-Pn tcp -Ps %d -Pa %d -Pf %d -Po %d " args
  else sprintf "[%d %d] %d %d" args

/-- Every chunk is written over the one before it. -/
def formatSctp : Text :=
  match e.p.sctp.getLast? with
  | none => []
  | some chunk =>
      let args : List Arg := [.int e.p.sctp.length, .char chunk.eType.char, .int chunk.uiTsn,
        .int chunk.usStreamId, .int chunk.usStreamSeqNum, .int e.p.cmn.numForwards,
        .int e.p.optNumForwards]
      if e.newtrace then
        sprintf "-Pn sctp -Pnc %d -Pct %c -Ptsn %d -Psid %d -Pssn %d -Pf %d -Po %d " args
      else sprintf "[%d %c %d %d %d] %d %d" args

def formatRtp : Text :=
  let args : List Arg := [.int e.p.rtpSeqno, .int e.p.cmn.numForwards, .int e.p.optNumForwards]
  if e.newtrace then sprintf "-Pn cbr -Pi %d -Pf %d -Po %d " args
  else sprintf "[%d] %d %d" args

def formatImep : Text :=
  let im := e.p.imep
  let args : List Arg := [.char (if im.flagAck then 'A' else '-'),
    .char (if im.flagHello then 'H' else '-'), .char (if im.flagObject then 'O' else '-'),
    .int im.imepLength]
  if e.newtrace then sprintf "-P imep -Pa %c -Ph %c -Po %c -Pl 0x%04x ] " args
  else sprintf "[%c %c %c 0x%04x] " args

def formatTora : Text :=
  match e.p.tora with
  | .qry tqType tqDst =>
      let args : List Arg := [.int tqType, .int tqDst]
      if e.newtrace then sprintf "-P tora -Pt 0x%x -Pd %d -Pc QUERY " args
      else sprintf "[0x%x %d] (QUERY)" args
  | .upd tuType tuDst tuTau tuOid tuR tuDelta tuId =>
      let args : List Arg := [.int tuType, .int tuDst, .double tuTau, .int tuOid, .int tuR,
        .int tuDelta, .int tuId]
      if e.newtrace then sprintf "-P tora -Pt 0x%x -Pd %d (%f %d %d %d %d) -Pc UPDATE " args
      else sprintf "-Pt 0x%x -Pd %d -Pa %f -Po %d -Pr %d -Pe %d -Pi %d -Pc UPDATE " args
  | .clr tcType tcDst tcTau tcOid =>
      let args : List Arg := [.int tcType, .int tcDst, .double tcTau, .int tcOid]
      if e.newtrace then sprintf "-P tora -Pt 0x%x -Pd %d -Pa %f -Po %d -Pc CLEAR " args
      else sprintf "[0x%x %d %f %d] (CLEAR)" args
  | .other => []

def formatAodv : Text :=
  match e.p.aodv with
  | .request rqType rqHopCount rqBcastId rqDst rqDstSeqno rqSrc rqSrcSeqno =>
      let args : List Arg := [.int rqType, .int rqHopCount, .int rqBcastId, .int rqDst,
        .int rqDstSeqno, .int rqSrc, .int rqSrcSeqno]
      if e.newtrace then
        sprintf "-P aodv -Pt 0x%x -Ph %d -Pb %d -Pd %d -Pds %d -Ps %d -Pss %d -Pc REQUEST " args
      else sprintf "[0x%x %d %d [%d %d] [%d %d]] (REQUEST)" args
  | .reply kind rpType rpHopCount rpDst rpDstSeqno rpLifetime _ _ =>
      let args : List Arg := [.int rpType, .int rpHopCount, .int rpDst, .int rpDstSeqno,
        .double rpLifetime, .str kind.name.toList]
      if e.newtrace then sprintf "-P aodv -Pt 0x%x -Ph %d -Pd %d -Pds %d -Pl %f -Pc %s " args
      else sprintf "[0x%x %d [%d %d] %f] (%s)" args

def formatAomdv : Text :=
  match e.p.aomdv with
  | .request rqType rqHopCount rqBcastId rqDst rqDstSeqno rqSrc rqSrcSeqno =>
      let args : List Arg := [.int rqType, .int rqHopCount, .int rqBcastId, .int rqDst,
        .int rqDstSeqno, .int rqSrc, .int rqSrcSeqno]
      if e.newtrace then
        sprintf "-P aomdv -Pt 0x%x -Ph %d -Pb %d -Pd %d -Pds %d -Ps %d -Pss %d -Pc REQUEST " args
      else sprintf "[0x%x %d %d [%d %d] [%d %d]] (REQUEST)" args
  | .reply kind rpType rpHopCount rpDst rpDstSeqno rpLifetime rpBcastId rpFirstHop =>
      let args : List Arg := [.int rpType, .int rpHopCount, .int rpDst, .int rpDstSeqno,
        .double rpLifetime, .str kind.name.toList]
      if e.newtrace then sprintf "-P aomdv -Pt 0x%x -Ph %d -Pd %d -Pds %d -Pl %f -Pc %s " args
      else
        sprintf "[0x%x %d [%d %d] %f] (%s) [%d %d]"
          (args ++ [.int rpBcastId, .int rpFirstHop])

def formatAntnet : Text :=
  let ah := e.p.ant
  let args : List Arg := [.int ah.pktSrc, .int ah.pktSeqNum.toNat, .int ah.pktLen.toNat]
  if e.newtrace then sprintf "-P ant -Po %d -Ps %d -Pl %d " args
  else sprintf "[ant %d %d %d] " args

/-- What follows the IP part, by the packet type. -/
def formatBody : Text :=
  let ptype := e.p.cmn.ptype
  if ptype = ptAodv then e.formatAodv
  else if ptype = ptAnt then e.formatAntnet
  else if ptype = ptAomdv then e.formatAomdv
  else if ptype = ptTora then e.formatTora
  else if ptype = ptImep then e.formatImep
  else if ptype = ptDsr then e.formatDsr
  else if ptype = ptMessage ∨ ptype = ptUdp then formatMsg
  else if ptype = ptTcp ∨ ptype = ptAck then e.formatTcp
  else if ptype = ptSctp then e.formatSctp
  else if ptype = ptCbr then e.formatRtp
  else []

/-- The line of an event. -/
def format : Text :=
  e.formatMacCommon ++
    if e.p.cmn.ptype = ptMac ∨ e.p.cmn.ptype = ptSmac then []
    else if e.p.cmn.ptype = ptArp then e.formatArp
    else e.formatIp ++ e.formatBody

end TraceEvent

end AntAodv
