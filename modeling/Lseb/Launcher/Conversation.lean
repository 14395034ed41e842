import Lseb.Foundation.Dialogue
import Lseb.Launcher.Lines
import Lseb.Launcher.Messages
import Lseb.Launcher.Pmi

/-!
# The client's side of the conversation

Each call of the client is a dialogue of at most three lines with a process
manager whose answers are well formed; a call whose answer has not arrived
waits for it, with its request sent.
-/

namespace Lseb

open Foundation Wire Pmiu

/-- The lines written, and the lines on their way, in whatever pieces; no write fails. -/
def wireChannel : Channel Wire CString CString where
  asked := Wire.written
  Hears := fun wire answers => (∀ answer ∈ answers, Line answer) ∧ wire.Carries answers.flatten ∧
    wire.writes = []

/-- A line that answers with a command, and what its values are. -/
def Reply (cmd : String) (Content : (CString → Option CString) → Prop) (line : CString) : Prop :=
  ∃ pairs : List (CString × CString), line = render pairs ∧ (∀ pair ∈ pairs, Proper pair) ∧
    pairs.length ≤ tabLen ∧ pairs.lookup "cmd".toList = some cmd.toList ∧
    Content fun key => pairs.lookup key

/-- A request that is sent as it is. -/
structure Request (request : CString) : Prop where
  ended : request.getLast? = some '\n'
  short : request.length < maxLine

namespace Pmi

abbrev clientChannel : Channel PmiClient CString CString := wireChannel.of PmiClient.wire

/-- The call waits for the next line. -/
abbrev waiting : Error := .fault "read"

/-- The client after an answer. -/
def told (client : PmiClient) (pairs : List (CString × CString)) (wire : Wire) : PmiClient :=
  { client with
    keyvalTab := pairs.map fun pair => ⟨pair.1, pair.2⟩
    wire := wire }

/-- The table holds an answer. -/
def Told (Content : (CString → Option CString) → Prop) (client : PmiClient) : Prop :=
  ∃ pairs : List (CString × CString), (∀ pair ∈ pairs, Proper pair) ∧
    client.keyvalTab = pairs.map (fun pair => ⟨pair.1, pair.2⟩) ∧
      Content fun key => pairs.lookup key

/-- What a call does not change. -/
def Stable (F : PmiClient → Prop) : Prop :=
  ∀ client tab wire, F client → F { client with
    keyvalTab := tab
    wire := wire }

section Calls

variable {client : PmiClient} {request line : CString} {answers : List CString}
  {Content : (CString → Option CString) → Prop} {F : PmiClient → Prop} {cmd : String}
  {checkRc : Bool}

theorem getval_eq (keystr : String) (valstr : CString) (vallen : ℕ) :
    getval keystr valstr vallen client =
      .ok (Pmiu.getval client.keyvalTab keystr.toList valstr vallen) client := rfl

theorem getval_of_said {pairs : List (CString × CString)} {keystr : String} {value : CString}
    (valstr : CString) (proper : ∀ pair ∈ pairs, Proper pair)
    (table : client.keyvalTab = pairs.map fun pair => ⟨pair.1, pair.2⟩)
    (said : pairs.lookup keystr.toList = some value) :
    getval keystr valstr maxLine client = .ok (value, true) client := by
  obtain ⟨before, after, rfl, _⟩ := List.lookup_eq_some_iff.mp said
  have short : value.length < maxLine := (proper (keystr.toList, value) (by simp)).fits
  rw [getval_eq, table, getval_of_lookup said short]

theorem writeline_request (sent : Request request) (accepted : client.wire.writes = []) :
    onWire (writeline request) client = .ok 0 { client with
      wire := { client.wire with
        written := client.wire.written ++ [request] } } := by
  have inner : writeline request client.wire = .ok 0 { client.wire with
      written := client.wire.written ++ [request] } := by
    rw [writeline, if_neg (Nat.not_lt.mpr sent.short.le), if_neg (by simp [sent.ended]),
      estate_get_bind]
    obtain ⟨_, _, _, _, _, _, buffered, reads, writes, written⟩ := client
    cases accepted
    rfl
  exact zoom_of_ok inner

/-- A request is sent, and the next line is parsed. -/
theorem converse (sent : Request request) (reply : Reply cmd Content line)
    (hears : clientChannel.Hears client (line :: answers)) :
    ∃ (asked read : PmiClient) (wire : Wire) (pairs : List (CString × CString)),
      onWire (writeline request) client = .ok 0 asked ∧
      onWire (readline maxLine) asked = .ok (some line) read ∧
      onTab (parseKeyvals line) read = .ok 0 (told client pairs wire) ∧
      (∀ pair ∈ pairs, Proper pair) ∧ pairs.lookup "cmd".toList = some cmd.toList ∧
      (Content fun key => pairs.lookup key) ∧ wireChannel.Hears wire answers ∧
      wire.written = client.wire.written ++ [request] := by
  obtain ⟨pairs, rfl, proper, count, named, content⟩ := reply
  obtain ⟨lines, carries, accepted⟩ := hears
  obtain ⟨here, later⟩ := List.forall_mem_cons.mp lines
  rw [List.flatten_cons] at carries
  obtain ⟨wire, read, listened⟩ := @readline_line { client.wire with
    written := client.wire.written ++ [request] } _ _ here carries
  have parsed := @parseKeyvals_render pairs client.keyvalTab proper count
  refine ⟨_, { client with wire := wire }, wire, pairs, writeline_request sent accepted,
    zoom_of_ok read, zoom_of_ok parsed, proper, named, content,
    ⟨later, listened.carries, listened.writes.trans accepted⟩, listened.written⟩

/-- Without an answer, the call waits with its request sent. -/
theorem converse_waiting (sent : Request request) (hears : clientChannel.Hears client []) :
    ∃ asked read, onWire (writeline request) client = .ok 0 asked ∧
      onWire (readline maxLine) asked = .error waiting read ∧
      read.wire.written = client.wire.written ++ [request] := by
  obtain ⟨_, carries, accepted⟩ := hears
  obtain ⟨wire, blocked, listened⟩ := @readline_blocked { client.wire with
    written := client.wire.written ++ [request] } _ (by simp) (by decide) carries
  exact ⟨_, { client with wire := wire }, writeline_request sent accepted,
    zoom_of_error blocked, listened.written⟩

/-- An answer with the expected command, and no other code than zero, is accepted. -/
theorem getResponse_talks (stable : Stable F) (sent : Request request)
    (zero : checkRc = true → ∀ find, Content find → find ['r', 'c'] = some ['0']) :
    Talks clientChannel waiting F [⟨request, Reply cmd Content⟩] (getResponse request cmd checkRc)
      (fun err client => err = success ∧ F client ∧ Told Content client) := by
  apply Talks.ask (Q := fun client => F client ∧ Told Content client)
  · intro client line answers holds hears reply
    obtain ⟨asked, read, wire, pairs, wrote, heard, parsed, proper, named, content, left,
      written⟩ := converse sent reply hears
    obtain ⟨first, rest, rfl⟩ : ∃ first rest, line = first :: rest := by
      obtain ⟨body, ended, _⟩ := (hears.1 line List.mem_cons_self).ended
      cases line with
      | nil => simp at ended
      | cons first rest => exact ⟨first, rest, rfl⟩
    refine ⟨told client pairs wire, pure success, ?_,
      ⟨stable client _ wire holds, pairs, proper, rfl, content⟩,
      Talks.pure fun _ after => ⟨rfl, after⟩, left, written⟩
    rw [getResponse, bind_of_ok wrote, if_neg (by simp), bind_of_ok heard]
    dsimp only
    rw [bind_of_ok parsed, if_neg (by simp),
      bind_of_ok (@getval_of_said _ pairs "cmd" _ [] proper rfl named)]
    dsimp only
    rw [if_neg (by simp), if_neg (by simp)]
    cases checkRc with
    | false => rfl
    | true =>
      have said := zero rfl _ content
      rw [if_pos rfl, bind_of_ok (@getval_of_said _ pairs "rc" _ _ proper rfl said)]
      rfl
  · intro client _ hears
    obtain ⟨asked, read, wrote, blocked, written⟩ := converse_waiting sent hears
    refine ⟨read, ?_, written⟩
    rw [getResponse, bind_of_ok wrote, if_neg (by simp), bind_of_error blocked]

end Calls

/-- The place of a process in its job. -/
def Member (rank size : ℕ) (client : PmiClient) : Prop :=
  client.pmiRank = rank ∧ client.pmiSize = size

theorem Member.stable {rank size : ℕ} : Stable (Member rank size) := fun _ _ _ member => member

def initLine : CString := "cmd=init pmi_version=1 pmi_subversion=1\n".toList

def maxesLine : CString := "cmd=get_maxes\n".toList

def nameLine : CString := "cmd=get_my_kvsname\n".toList

def barrierLine : CString := "cmd=barrier_in\n".toList

def putLine (kvsname key value : CString) : CString :=
  "cmd=put kvsname=".toList ++ kvsname ++ " key=".toList ++ key ++ " value=".toList ++ value ++
    ['\n']

def getLine (kvsname key : CString) : CString :=
  "cmd=get kvsname=".toList ++ kvsname ++ " key=".toList ++ key ++ ['\n']

/-- What the answers have to contain. -/
def rcZero (find : CString → Option CString) : Prop := find "rc".toList = some ['0']

def smallMaxes (find : CString → Option CString) : Prop :=
  ∃ value, find "kvsname_max".toList = some value ∧ atoi value < 1024

def namesKvs (kvsname : CString) (find : CString → Option CString) : Prop :=
  find "kvsname".toList = some kvsname

def hasValue (value : CString) (find : CString → Option CString) : Prop :=
  find "rc".toList = some ['0'] ∧ find "value".toList = some value

section Functions

variable {rank size : ℕ} {kvsname key value : CString}

theorem snprintf_of_short {text : CString} (short : text.length < maxLine) :
    snprintf maxLine text = text :=
  List.take_of_length_le (by omega)

theorem request_of_short {text : CString} (short : (text ++ ['\n']).length < maxLine) :
    Request (text ++ ['\n']) :=
  ⟨by simp, short⟩

theorem askMaxes_talks (buf : CString) : Talks clientChannel waiting (Member rank size)
    [⟨maxesLine, Reply "maxes" smallMaxes⟩] (askMaxes buf)
    (fun _ client => Member rank size client ∧ client.kvsnameMax < 1024) := by
  refine (getResponse_talks Member.stable ⟨by decide, by decide⟩ (by simp)).bind fun err =>
    Talks.silent ?_
  rintro client ⟨rfl, member, pairs, proper, table, value, given, small⟩
  rw [if_pos rfl, bind_of_ok (getval_of_said buf proper table given)]
  dsimp only
  rw [bind_of_ok (getval_eq _ _ _), bind_of_ok (getval_eq _ _ _)]
  exact ⟨success, _, rfl, ⟨member, small⟩, rfl, fun _ hears => hears⟩

theorem getmaxes_talks : Talks clientChannel waiting (Member rank size)
    [⟨initLine, Reply "response_to_init" rcZero⟩, ⟨maxesLine, Reply "maxes" smallMaxes⟩] getmaxes
    (fun _ client => Member rank size client ∧ client.kvsnameMax < 1024) := by
  have line : snprintf maxLine ("cmd=init pmi_version=".toList ++ decimal version ++
      " pmi_subversion=".toList ++ decimal subversion ++ ['\n']) = initLine := by decide
  have sent : Request initLine := ⟨by decide, by decide⟩
  apply Talks.ask (Q := Member rank size)
  · intro client buf answers member hears reply
    obtain ⟨asked, read, wire, pairs, wrote, heard, parsed, proper, named, content, left,
      written⟩ := converse sent reply hears
    refine ⟨told client pairs wire, askMaxes ['0'], ?_, Member.stable client _ wire member,
      askMaxes_talks _, left, written⟩
    rw [getmaxes]
    generalize "response_to_init".toList = expected at named ⊢
    dsimp only
    rw [line, bind_of_ok wrote, if_neg (by simp), bind_of_ok heard]
    dsimp only
    rw [bind_of_ok parsed, bind_of_ok (@getval_of_said _ pairs "cmd" _ [] proper rfl named)]
    dsimp only
    rw [if_neg (by simp), bind_of_ok (@getval_of_said _ pairs "rc" _ _ proper rfl content)]
    dsimp only
    rw [if_neg (by simp)]
  · intro client _ hears
    obtain ⟨asked, read, wrote, blocked, written⟩ := converse_waiting sent hears
    refine ⟨read, ?_, written⟩
    rw [getmaxes]
    dsimp only
    rw [line, bind_of_ok wrote, if_neg (by simp), bind_of_error blocked]

theorem init_talks : Talks clientChannel waiting (Member rank size)
    [⟨initLine, Reply "response_to_init" rcZero⟩, ⟨maxesLine, Reply "maxes" smallMaxes⟩] init
    (fun status client => status = success ∧ Member rank size client ∧ client.kvsnameMax < 1024) :=
  getmaxes_talks.bind fun _ => Talks.pure fun _ after => ⟨rfl, after⟩

theorem kvsGetMyName_talks {before : CString} : Talks clientChannel waiting (Member rank size)
    [⟨nameLine, Reply "my_kvsname" (namesKvs kvsname)⟩] (kvsGetMyName before 1024)
    (fun result client => result = (kvsname, success) ∧ Member rank size client) := by
  refine (getResponse_talks Member.stable ⟨by decide, by decide⟩ (by simp)).bind fun err =>
    Talks.silent ?_
  rintro client ⟨rfl, member, pairs, proper, table, given⟩
  rw [if_pos rfl, show 1024 = maxLine from rfl, bind_of_ok (getval_of_said _ proper table given)]
  exact ⟨_, client, rfl, ⟨rfl, member⟩, rfl, fun _ hears => hears⟩

theorem barrier_talks {Content : (CString → Option CString) → Prop} :
    Talks clientChannel waiting (Member rank size) [⟨barrierLine, Reply "barrier_out" Content⟩]
      barrier (fun status client => status = success ∧ Member rank size client) :=
  (getResponse_talks Member.stable ⟨by decide, by decide⟩ (by simp)).weaken (fun _ member => member)
    fun _ _ after => ⟨after.1, after.2.1⟩

theorem kvsPut_talks (short : (putLine kvsname key value).length < maxLine) :
    Talks clientChannel waiting (Member rank size)
      [⟨putLine kvsname key value, Reply "put_result" rcZero⟩] (kvsPut kvsname key value)
      (fun status client => status = success ∧ Member rank size client) := by
  have line : kvsPut kvsname key value =
      getResponse (putLine kvsname key value) "put_result" true := by
    rw [← snprintf_of_short short]
    rfl
  rw [line]
  exact (getResponse_talks Member.stable (request_of_short short) fun _ _ zero => zero).weaken
    (fun _ member => member) fun _ _ after => ⟨after.1, after.2.1⟩

theorem kvsGet_talks {before : CString} (short : (getLine kvsname key).length < maxLine) :
    Talks clientChannel waiting (Member rank size)
      [⟨getLine kvsname key, Reply "get_result" (hasValue value)⟩]
      (kvsGet kvsname key before 1024)
      (fun result client => result = (value, success) ∧ Member rank size client) := by
  have line : snprintf maxLine ("cmd=get kvsname=".toList ++ kvsname ++ " key=".toList ++ key ++
      ['\n']) = getLine kvsname key := snprintf_of_short short
  rw [kvsGet]
  dsimp only
  rw [line]
  refine (getResponse_talks Member.stable (request_of_short short) (by simp)).bind fun err =>
    Talks.silent ?_
  rintro client ⟨rfl, member, pairs, proper, table, zero, given⟩
  rw [if_pos rfl, bind_of_ok (getval_of_said _ proper table zero)]
  dsimp only
  rw [if_pos (by decide), show 1024 = maxLine from rfl,
    bind_of_ok (getval_of_said before proper table given)]
  exact ⟨_, client, rfl, ⟨rfl, member⟩, rfl, fun _ hears => hears⟩

end Functions

end Pmi

namespace HydraLauncher

open Pmi

abbrev channel : Channel HydraLauncher CString CString := clientChannel.of HydraLauncher.pmi

/-- A launcher in its job; what is known of the rest of it is a parameter. -/
def Joined (rank size : ℕ) (F : HydraLauncher → Prop) (launcher : HydraLauncher) : Prop :=
  Member rank size launcher.pmi ∧ F launcher

/-- The name of the key-value space has been fetched. -/
def Named (kvsname : CString) (launcher : HydraLauncher) : Prop := launcher.kvsName = kvsname

section Operations

variable {rank size i : ℕ} {kvsname key value : CString}

theorem onPmi_talks {α : Type} {P : PmiClient → Prop} {script : List (Exchange CString CString)}
    {x : PmiM α} {R : α → PmiClient → Prop} {F : HydraLauncher → Prop}
    (frame : ∀ launcher pmi, F launcher → F { launcher with pmi := pmi })
    (talks : Talks clientChannel waiting P script x R) :
    Talks channel waiting (fun launcher => P launcher.pmi ∧ F launcher) script (onPmi x)
      (fun a launcher => R a launcher.pmi ∧ F launcher) :=
  talks.zoom (fun _ _ => rfl) frame

theorem checkStatus_talks {P : HydraLauncher → Prop} {funcName : String} {status : ℤ}
    (zero : ∀ launcher, P launcher → status = success) :
    Talks channel waiting P [] (checkStatus funcName status) (fun _ => P) := by
  apply Talks.silent
  intro launcher before
  obtain rfl := zero launcher before
  exact ⟨(), launcher, rfl, before, rfl, fun _ hears => hears⟩

/-- A computation that only looks at the state. -/
theorem look_talks {α : Type} {P : HydraLauncher → Prop} {x : LauncherM α} {R : α → Prop}
    (looks : ∀ launcher, P launcher → ∃ a, x launcher = .ok a launcher ∧ R a) :
    Talks channel waiting P [] x (fun a launcher => R a ∧ P launcher) := by
  apply Talks.silent
  intro launcher before
  obtain ⟨a, same, result⟩ := looks launcher before
  exact ⟨a, launcher, same, ⟨result, before⟩, rfl, fun _ hears => hears⟩

theorem initializePmi_talks : Talks channel waiting (Joined rank size fun _ => True)
    [⟨initLine, Reply "response_to_init" rcZero⟩, ⟨maxesLine, Reply "maxes" smallMaxes⟩,
      ⟨nameLine, Reply "my_kvsname" (namesKvs kvsname)⟩] initializePmi
    (fun _ => Joined rank size (Named kvsname)) := by
  rw [initializePmi]
  refine (onPmi_talks (fun _ _ _ => trivial) init_talks).bind fun status => ?_
  refine (checkStatus_talks fun _ before => before.1.1).bind fun _ => ?_
  refine (look_talks (R := fun result => result.2 = success ∧ result.1 < 1024) ?_).bind ?_
  · rintro launcher ⟨⟨_, _, small⟩, _⟩
    exact ⟨(launcher.pmi.kvsnameMax, success), rfl, rfl, small⟩
  · rintro ⟨max, status'⟩
    refine (checkStatus_talks fun _ before => before.1.1).bind fun _ => ?_
    refine Talks.of_fact (fun _ before => before.1.2) fun small => ?_
    dsimp only at small ⊢
    rw [if_neg (Int.not_le.mpr small)]
    refine (look_talks (R := fun _ => True) fun launcher _ => ⟨launcher, rfl, trivial⟩).bind
      fun before => ?_
    refine ((onPmi_talks (fun _ _ _ => trivial) kvsGetMyName_talks).weaken
      (fun _ before => ⟨before.2.2.1.2.1, trivial⟩) fun _ _ after => after).bind ?_
    rintro ⟨name, status''⟩
    refine Talks.bind (Talks.silent (R := fun _ launcher => status'' = success ∧
      Joined rank size (Named kvsname) launcher) ?_) fun _ =>
      (checkStatus_talks fun _ before => before.1).weaken (fun _ before => before)
        fun _ _ after => after.2
    rintro launcher ⟨⟨same, member⟩, _⟩
    cases same
    exact ⟨(), _, rfl, ⟨rfl, member, rfl⟩, rfl, fun _ hears => hears⟩

theorem barrier_talks {Content : (CString → Option CString) → Prop} :
    Talks channel waiting (Joined rank size (Named kvsname))
      [⟨barrierLine, Reply "barrier_out" Content⟩] barrier
      (fun _ => Joined rank size (Named kvsname)) := by
  refine (onPmi_talks (fun _ _ named => named) Pmi.barrier_talks).bind fun status => ?_
  exact (checkStatus_talks fun _ before => before.1.1).weaken (fun _ before => before)
    fun _ _ after => ⟨after.1.2, after.2⟩

theorem getWorldSize_talks {F : HydraLauncher → Prop} :
    Talks channel waiting (Joined rank size F) [] getWorldSize
      (fun result launcher => result = size ∧ Joined rank size F launcher) :=
  look_talks fun launcher joined => ⟨size, by rw [← joined.1.2]; rfl, rfl⟩

theorem getRank_talks {F : HydraLauncher → Prop} :
    Talks channel waiting (Joined rank size F) [] getRank
      (fun result launcher => result = rank ∧ Joined rank size F launcher) :=
  look_talks fun launcher joined => ⟨rank, by rw [← joined.1.1]; rfl, rfl⟩

theorem commit_talks {F : HydraLauncher → Prop} :
    Talks channel waiting (Joined rank size F) [] commit (fun _ => Joined rank size F) :=
  Talks.silent fun launcher joined =>
    ⟨(), launcher, rfl, joined, rfl, fun _ hears => hears⟩

/-- The name under which the value of a rank is put. -/
def rankName (key : CString) (rank : ℕ) : CString := key ++ '-' :: decimal rank

theorem rankKey_talks {P : HydraLauncher → Prop} (short : (rankName key i).length < 512) :
    Talks channel waiting P [] (rankKey key i)
      (fun buffer launcher => buffer = rankName key i ∧ P launcher) :=
  look_talks fun launcher _ => ⟨rankName key i, by rw [rankKey]; exact congrFun (if_pos short) _,
    rfl⟩

theorem set_talks (named : (rankName key rank).length < 512)
    (short : (putLine kvsname (rankName key rank) value).length < maxLine) :
    Talks channel waiting (Joined rank size (Named kvsname))
      [⟨putLine kvsname (rankName key rank) value, Reply "put_result" rcZero⟩] (set key value)
      (fun _ => Joined rank size (Named kvsname)) := by
  rw [set]
  refine getRank_talks.bind fun result => Talks.of_fact (fun _ before => before.1) ?_
  rintro rfl
  refine (rankKey_talks named).bind fun buffer => Talks.of_fact (fun _ before => before.1) ?_
  rintro rfl
  refine (look_talks (R := fun found => found.kvsName = kvsname) ?_).bind fun found =>
    Talks.of_fact (fun _ before => before.1) ?_
  · exact fun launcher before => ⟨launcher, rfl, before.2.2.2⟩
  · rintro rfl
    refine ((onPmi_talks (fun _ _ same => same) (kvsPut_talks short)).weaken
      (fun _ before => before.2.2.2) fun _ _ after => after).bind fun status => ?_
    exact (checkStatus_talks fun _ before => before.1.1).weaken (fun _ before => before)
      fun _ _ after => ⟨after.1.2, after.2⟩

theorem get_talks (named : (rankName key i).length < 512)
    (short : (getLine kvsname (rankName key i)).length < maxLine) :
    Talks channel waiting (Joined rank size (Named kvsname))
      [⟨getLine kvsname (rankName key i), Reply "get_result" (hasValue value)⟩] (get key i)
      (fun result launcher => result = value ∧ Joined rank size (Named kvsname) launcher) := by
  rw [get]
  refine (rankKey_talks named).bind fun buffer => Talks.of_fact (fun _ before => before.1) ?_
  rintro rfl
  refine (look_talks (R := fun found => found.kvsName = kvsname) ?_).bind fun found =>
    Talks.of_fact (fun _ before => before.1) ?_
  · exact fun launcher before => ⟨launcher, rfl, before.2.2⟩
  · rintro rfl
    refine ((onPmi_talks (fun _ _ same => same) (kvsGet_talks short)).weaken
      (fun _ before => before.2.2) fun _ _ after => after).bind ?_
    rintro ⟨output, status⟩
    refine (checkStatus_talks fun _ before => congrArg Prod.snd before.1.1).bind fun _ => ?_
    exact Talks.pure fun _ after => ⟨congrArg Prod.fst after.1.1, after.1.2, after.2⟩

end Operations

end HydraLauncher

end Lseb
