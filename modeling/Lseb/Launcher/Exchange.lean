import Mathlib.Algebra.Group.Nat.Defs
import Lseb.Launcher.Conversation

/-!
# The exchange of the addresses

Every process of a job puts its address and its port under its rank, waits for
the others, and reads those of all ranks. What a process asks, in which order,
does not depend on the answers.
-/

namespace Lseb

open Foundation Wire Pmiu Pmi HydraLauncher

/-- A job: its size, the address that `get_local_ip` finds at each rank, the configured ports,
and the order in which the compiler evaluates two arguments. -/
structure JobConf where
  size : ℕ
  ip : ℕ → CString
  port : ℤ
  range : ℤ
  portFirst : Bool

namespace JobConf

variable (conf : JobConf)

def portStr (rank : ℕ) : CString := decimal (conf.port + Int.tmod rank conf.range)

/-- The endpoints of the whole job, by rank. -/
def endpoints : List Endpoint := (List.range conf.size).map fun i => ⟨conf.ip i, conf.portStr i⟩

/-- A process that is about to join its job, with what its connection gives. -/
def launcher (rank : ℕ) (reads : List FdRead) : HydraLauncher where
  kvsName := []
  pmi := {
    pmiSize := conf.size
    pmiRank := rank
    kvsnameMax := 0
    keylenMax := 0
    vallenMax := 0
    keyvalTab := []
    wire := ⟨[], reads, [], []⟩ }

/-- The exchange at a rank. -/
def launch (rank : ℕ) (reads : List FdRead) :
    EStateM.Result Error HydraLauncher (ℕ × List Endpoint) :=
  exchange (conf.ip rank) conf.port conf.range conf.portFirst (conf.launcher rank reads)

/-- Requests that the buffers of the client have room for. -/
structure Small (kvsname : CString) : Prop where
  size : conf.size < 2 ^ 31
  range : conf.range ≠ 0
  port : ∀ rank < conf.size, (conf.portStr rank).length < 8
  ip : ∀ rank < conf.size, kvsname.length + (conf.ip rank).length ≤ 900

def ipKey : CString := "ip".toList

def portKey : CString := "port".toList

/-- A question for a value of rank `i`, and what answers it. -/
def asksValue (kvsname key value : CString) (i : ℕ) : Exchange CString CString :=
  ⟨getLine kvsname (rankName key i), Reply "get_result" (hasValue value)⟩

def asksEndpoint (kvsname : CString) (i : ℕ) : List (Exchange CString CString) :=
  let ip := asksValue kvsname ipKey (conf.ip i) i
  let port := asksValue kvsname portKey (conf.portStr i) i
  if conf.portFirst then [port, ip] else [ip, port]

/-- What a process asks before it reads the values. -/
def joins (kvsname : CString) (rank : ℕ) : List (Exchange CString CString) :=
  [⟨initLine, Reply "response_to_init" rcZero⟩, ⟨maxesLine, Reply "maxes" smallMaxes⟩,
    ⟨nameLine, Reply "my_kvsname" (namesKvs kvsname)⟩,
    ⟨putLine kvsname (rankName ipKey rank) (conf.ip rank), Reply "put_result" rcZero⟩,
    ⟨putLine kvsname (rankName portKey rank) (conf.portStr rank), Reply "put_result" rcZero⟩,
    ⟨barrierLine, Reply "barrier_out" fun _ => True⟩]

def script (kvsname : CString) (rank : ℕ) : List (Exchange CString CString) :=
  conf.joins kvsname rank ++ (List.range' 0 conf.size).flatMap (conf.asksEndpoint kvsname)

section Lengths

variable {conf} {kvsname key value : CString} {rank i : ℕ}

theorem decimal_length {n : ℕ} (small : n < 2 ^ 31) : (decimal n).length ≤ 10 := by
  have digits : Nat.toDigits 10 n = decimal n := rfl
  rw [← digits, Nat.length_toDigits_le_iff (by decide) (by decide)]
  omega

theorem putLine_length : (putLine kvsname key value).length =
    16 + kvsname.length + 5 + key.length + 7 + value.length + 1 := by
  have first : "cmd=put kvsname=".toList.length = 16 := by decide
  have second : " key=".toList.length = 5 := by decide
  have third : " value=".toList.length = 7 := by decide
  unfold putLine
  simp only [List.length_append, List.length_singleton, first, second, third]

theorem getLine_length : (getLine kvsname key).length =
    16 + kvsname.length + 5 + key.length + 1 := by
  have first : "cmd=get kvsname=".toList.length = 16 := by decide
  have second : " key=".toList.length = 5 := by decide
  unfold getLine
  simp only [List.length_append, List.length_singleton, first, second]

theorem rankName_length (small : rank < 2 ^ 31) (short : key.length ≤ 4) :
    (rankName key rank).length ≤ 15 := by
  have digits := decimal_length small
  rw [rankName, List.length_append, List.length_cons]
  omega

end Lengths

section Talking

variable {conf} {kvsname : CString} {rank : ℕ} (small : conf.Small kvsname)
  (below : rank < conf.size)

include small below

theorem Small.digits : rank < 2 ^ 31 := below.trans small.size

theorem Small.name {key : CString} (short : key.length ≤ 4) :
    (rankName key rank).length < 512 := by
  have named := rankName_length (small.digits below) short
  omega

theorem Small.put {key value : CString} (short : key.length ≤ 4)
    (fits : kvsname.length + value.length ≤ 910) :
    (putLine kvsname (rankName key rank) value).length < maxLine := by
  have named := rankName_length (small.digits below) short
  rw [putLine_length, maxLine]
  omega

theorem Small.ipValue : kvsname.length + (conf.ip rank).length ≤ 910 :=
  (small.ip rank below).trans (by decide)

theorem Small.portValue : kvsname.length + (conf.portStr rank).length ≤ 910 := by
  have address := small.ip rank below
  have port := small.port rank below
  omega

theorem Small.get {key : CString} (short : key.length ≤ 4) :
    (getLine kvsname (rankName key rank)).length < maxLine := by
  have named := rankName_length (small.digits below) short
  have address := small.ip rank below
  rw [getLine_length, maxLine]
  omega

theorem getEndpoint_talks {self : ℕ} :
    Talks channel waiting (Joined self conf.size (Named kvsname)) (conf.asksEndpoint kvsname rank)
      (getEndpoint conf.portFirst rank) (fun endpoint launcher =>
        endpoint = ⟨conf.ip rank, conf.portStr rank⟩ ∧
          Joined self conf.size (Named kvsname) launcher) := by
  have askIp := @get_talks self conf.size rank kvsname ipKey (conf.ip rank)
    (small.name below (by decide)) (small.get below (by decide))
  have askPort := @get_talks self conf.size rank kvsname portKey (conf.portStr rank)
    (small.name below (by decide)) (small.get below (by decide))
  rw [getEndpoint, asksEndpoint]
  cases conf.portFirst with
  | true =>
    rw [if_pos rfl, if_pos rfl]
    refine askPort.bind fun port => Talks.of_fact (fun _ before => before.1) ?_
    rintro rfl
    refine (askIp.weaken (fun _ before => before.2) fun _ _ after => after).bind fun hostname => ?_
    exact Talks.pure fun _ after => ⟨by rw [after.1], after.2⟩
  | false =>
    rw [if_neg Bool.false_ne_true, if_neg Bool.false_ne_true]
    refine askIp.bind fun hostname => Talks.of_fact (fun _ before => before.1) ?_
    rintro rfl
    refine (askPort.weaken (fun _ before => before.2) fun _ _ after => after).bind fun port => ?_
    exact Talks.pure fun _ after => ⟨by rw [after.1], after.2⟩

end Talking

section Launch

variable {conf} {kvsname : CString} {rank : ℕ} (small : conf.Small kvsname)

include small

theorem getEndpointsFrom_talks {i count : ℕ} (inside : i + count ≤ conf.size) :
    Talks channel waiting (Joined rank conf.size (Named kvsname))
      ((List.range' i count).flatMap (conf.asksEndpoint kvsname))
      (getEndpointsFrom conf.portFirst i count) (fun endpoints launcher =>
        endpoints = (List.range' i count).map (fun i => ⟨conf.ip i, conf.portStr i⟩) ∧
          Joined rank conf.size (Named kvsname) launcher) := by
  induction count generalizing i with
  | zero => exact Talks.pure fun _ joined => ⟨rfl, joined⟩
  | succ count ih =>
    rw [getEndpointsFrom, List.range'_succ, List.flatMap_cons, List.map_cons]
    refine (getEndpoint_talks small (by omega)).bind fun endpoint =>
      Talks.of_fact (fun _ before => before.1) ?_
    rintro rfl
    refine ((@ih (i + 1) (by omega)).weaken (fun _ before => before.2)
      fun _ _ after => after).bind_silent fun endpoints => ?_
    exact Talks.pure fun _ after => ⟨by rw [after.1], after.2⟩

theorem getEndpoints_talks : Talks channel waiting (Joined rank conf.size (Named kvsname))
    ((List.range' 0 conf.size).flatMap (conf.asksEndpoint kvsname)) (getEndpoints conf.portFirst)
    (fun endpoints _ => endpoints = conf.endpoints) := by
  rw [getEndpoints]
  refine getWorldSize_talks.bind fun nodes => Talks.of_fact (fun _ before => before.1) ?_
  rintro rfl
  refine (getEndpointsFrom_talks small (by omega)).weaken (fun _ before => before.2) ?_
  rintro _ _ ⟨rfl, _⟩
  rw [endpoints, List.range_eq_range']

theorem exchange_talks (below : rank < conf.size) :
    Talks channel waiting (Joined rank conf.size fun _ => True) (conf.script kvsname rank)
      (exchange (conf.ip rank) conf.port conf.range conf.portFirst)
      (fun result _ => result = (rank, conf.endpoints)) := by
  rw [exchange]
  refine initializePmi_talks.bind fun _ => ?_
  refine getRank_talks.bind fun result => Talks.of_fact (fun _ before => before.1) ?_
  rintro rfl
  have port := small.port result below
  rw [if_neg small.range]
  dsimp only
  have fits : ¬8 ≤ (decimal (conf.port + Int.tmod result conf.range)).length := Nat.not_le.mpr port
  rw [if_neg fits]
  refine ((set_talks (small.name below (by decide)) (small.put below (by decide)
    (small.ipValue below))).weaken (fun _ before => before.2) fun _ _ after => after).bind
      fun _ => ?_
  refine (set_talks (small.name below (by decide)) (small.put below (by decide)
    (small.portValue below))).bind fun _ => ?_
  refine commit_talks.bind fun _ => ?_
  refine barrier_talks.bind fun _ => ?_
  refine getRank_talks.bind fun id => Talks.of_fact (fun _ before => before.1) ?_
  rintro rfl
  refine ((getEndpoints_talks small).weaken (fun _ before => before.2)
    fun _ _ after => after).bind_silent fun endpoints => ?_
  exact Talks.pure fun _ after => by rw [after]

end Launch

end JobConf

end Lseb
