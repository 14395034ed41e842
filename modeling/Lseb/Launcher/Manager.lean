import Lseb.Launcher.Job

/-!
# A process manager

What is assumed of a process manager can be had: one that reads the requests
with the parser of the client, keeps one key-value space and counts who is in
the barrier.
-/

namespace Lseb

open Foundation Wire Pmiu Pmi HydraLauncher

namespace Manager

/-- The pairs of a request. -/
def pairsOf (line : CString) : List (CString × CString) :=
  match parseKeyvals line [] with
  | .ok _ tab => tab.map fun entry => (entry.key, entry.value)
  | .error _ _ => []

/-- The value of a key of a request. -/
def find (line : CString) (key : String) : CString := ((pairsOf line).lookup key.toList).getD []

/-- A message of a command and other pairs. -/
def message (cmd : String) (pairs : List (CString × CString)) : CString :=
  render (("cmd".toList, cmd.toList) :: pairs)

/-- The key-value space, and who is in the barrier. -/
structure Kvs where
  store : CString → Option CString
  waits : Finset ℕ

/-- One line to one rank. -/
def toRank (rank : ℕ) (line : CString) : ℕ → List CString :=
  fun i => if i = rank then [line] else []

def zero : CString × CString := ("rc".toList, ['0'])

def handle (size : ℕ) (kvsname : CString) (rank : ℕ) (line : CString) (kvs : Kvs) :
    Kvs × (ℕ → List CString) :=
  if find line "cmd" = "init".toList then
    (kvs, toRank rank (message "response_to_init" [zero]))
  else if find line "cmd" = "get_maxes".toList then
    (kvs, toRank rank (message "maxes" [("kvsname_max".toList, "256".toList)]))
  else if find line "cmd" = "get_my_kvsname".toList then
    (kvs, toRank rank (message "my_kvsname" [("kvsname".toList, kvsname)]))
  else if find line "cmd" = "put".toList then
    ({ kvs with store := Function.update kvs.store (find line "key") (find line "value") },
      toRank rank (message "put_result" [zero]))
  else if find line "cmd" = "get".toList then
    match kvs.store (find line "key") with
    | some value => (kvs, toRank rank (message "get_result" [zero, ("value".toList, value)]))
    | none => (kvs, toRank rank (message "get_result" [("rc".toList, "-1".toList)]))
  else if ∃ other < size, other ≠ rank ∧ other ∉ kvs.waits then
    ({ kvs with waits := insert rank kvs.waits }, fun _ => [])
  else ({ kvs with waits := ∅ }, fun _ => [message "barrier_out" []])

end Manager

/-- The manager of a job of so many processes. -/
def kvsManager (size : ℕ) (kvsname : CString) : ProcessManager where
  State := Manager.Kvs
  start := ⟨fun _ => none, ∅⟩
  handle := Manager.handle size kvsname

namespace Manager

section Pairs

variable {pairs : List (CString × CString)} {rank size : ℕ} {kvsname key value line : CString}

/-- The manager reads the pairs that were rendered. -/
theorem pairsOf_render (proper : ∀ pair ∈ pairs, Proper pair) (count : pairs.length ≤ tabLen) :
    pairsOf (render pairs) = pairs := by
  rw [pairsOf, parseKeyvals_render proper count]
  dsimp only
  rw [List.map_map]
  exact List.map_id pairs

theorem render_ended (proper : ∀ pair ∈ pairs, Proper pair) :
    ∃ body, render pairs = body ++ ['\n'] ∧ '\n' ∉ body := by
  have without : ∀ {word : CString}, Within endsValue word → '\n' ∉ word :=
    fun within member => absurd (within _ member) (by decide)
  induction pairs using render.induct with
  | case1 => exact ⟨[], rfl, by simp⟩
  | case2 pair =>
    obtain ⟨_, name, word, _, _⟩ := proper pair (List.mem_singleton_self _)
    refine ⟨pair.1 ++ '=' :: pair.2, by simp [render], ?_⟩
    have first := without fun c member => (Bool.or_eq_false_iff.mp (name c member)).2
    simp [first, without word]
  | case3 pair next pairs ih =>
    obtain ⟨⟨_, name, word, _, _⟩, others⟩ := List.forall_mem_cons.mp proper
    obtain ⟨body, ended, inside⟩ := ih others
    refine ⟨pair.1 ++ '=' :: (pair.2 ++ ' ' :: body), by simp [render, ended], ?_⟩
    have first := without fun c member => (Bool.or_eq_false_iff.mp (name c member)).2
    simp [first, without word, inside]

/-- A message of proper pairs is a reply with what they say. -/
theorem reply_render {cmd : String} {Content : (CString → Option CString) → Prop}
    (proper : ∀ pair ∈ ("cmd".toList, cmd.toList) :: pairs, Proper pair)
    (count : pairs.length < tabLen) (short : (message cmd pairs).length < maxLine)
    (content : Content fun key => (("cmd".toList, cmd.toList) :: pairs).lookup key) :
    Line (message cmd pairs) ∧ Reply cmd Content (message cmd pairs) :=
  ⟨⟨render_ended proper, short⟩, _, rfl, proper, count, List.lookup_cons_self, content⟩

theorem answers_toRank {Fits : CString → Prop} (fits : Line line ∧ Fits line) :
    Answers rank Fits (toRank rank line) :=
  ⟨⟨line, if_pos rfl, fits.1, fits.2⟩, fun _ differ => if_neg differ⟩

end Pairs

section Requests

variable {rank size : ℕ} {name kvsname key value : CString} {kvs : Kvs}

theorem putLine_render : putLine kvsname key value = render [("cmd".toList, "put".toList),
    ("kvsname".toList, kvsname), ("key".toList, key), ("value".toList, value)] := by
  have first : "cmd=put kvsname=".toList = "cmd".toList ++ '=' :: ("put".toList ++ ' ' ::
      ("kvsname".toList ++ ['='])) := by decide
  have second : " key=".toList = ' ' :: ("key".toList ++ ['=']) := by decide
  have third : " value=".toList = ' ' :: ("value".toList ++ ['=']) := by decide
  unfold putLine
  simp only [first, second, third, render, List.append_assoc, List.cons_append, List.nil_append]

theorem getLine_render : getLine kvsname key = render [("cmd".toList, "get".toList),
    ("kvsname".toList, kvsname), ("key".toList, key)] := by
  have first : "cmd=get kvsname=".toList = "cmd".toList ++ '=' :: ("get".toList ++ ' ' ::
      ("kvsname".toList ++ ['='])) := by decide
  have second : " key=".toList = ' ' :: ("key".toList ++ ['=']) := by decide
  unfold getLine
  simp only [first, second, render, List.append_assoc, List.cons_append, List.nil_append]

/-- A name may be sent as a value. -/
theorem proper_key (is : Name name) (stored : Storable key value) : Proper (name, key) :=
  is.proper (fun c member => (Bool.or_eq_false_iff.mp (stored.proper.name c member)).2)
    (stored.proper.short.trans (by decide))

theorem proper_value (is : Name name) (stored : Storable key value) : Proper (name, value) :=
  is.proper stored.proper.word stored.proper.fits

theorem find_render {pairs : List (CString × CString)} {word : String}
    (proper : ∀ pair ∈ pairs, Proper pair) (count : pairs.length ≤ tabLen)
    (found : pairs.lookup word.toList = some value) : find (render pairs) word = value := by
  rw [find, pairsOf_render proper count, found]
  rfl

theorem find_init : find initLine "cmd" = "init".toList := by
  have rendered : initLine = render [("cmd".toList, "init".toList),
    ("pmi_version".toList, "1".toList), ("pmi_subversion".toList, "1".toList)] := by decide
  rw [rendered]
  exact find_render (by decide) (by decide) rfl

theorem find_maxes : find maxesLine "cmd" = "get_maxes".toList := by
  have rendered : maxesLine = render [("cmd".toList, "get_maxes".toList)] := by decide
  rw [rendered]
  exact find_render (by decide) (by decide) rfl

theorem find_name : find nameLine "cmd" = "get_my_kvsname".toList := by
  have rendered : nameLine = render [("cmd".toList, "get_my_kvsname".toList)] := by decide
  rw [rendered]
  exact find_render (by decide) (by decide) rfl

theorem find_barrier : find barrierLine "cmd" = "barrier_in".toList := by
  have rendered : barrierLine = render [("cmd".toList, "barrier_in".toList)] := by decide
  rw [rendered]
  exact find_render (by decide) (by decide) rfl

section Store

variable (named : Storable "kvsname".toList kvsname) (stored : Storable key value)

include named stored

theorem find_put : find (putLine kvsname key value) "cmd" = "put".toList ∧
    find (putLine kvsname key value) "key" = key ∧
    find (putLine kvsname key value) "value" = value := by
  have proper : ∀ pair ∈ [("cmd".toList, "put".toList), ("kvsname".toList, kvsname),
      ("key".toList, key), ("value".toList, value)], Proper pair := by
    simp only [List.forall_mem_cons]
    exact ⟨by decide, named.proper, proper_key (by decide) stored, proper_value (by decide) stored,
      List.forall_mem_nil _⟩
  rw [putLine_render]
  have count : 4 ≤ tabLen := by decide
  exact ⟨find_render proper count rfl, find_render proper count rfl, find_render proper count rfl⟩

theorem find_get : find (getLine kvsname key) "cmd" = "get".toList ∧
    find (getLine kvsname key) "key" = key := by
  have proper : ∀ pair ∈ [("cmd".toList, "get".toList), ("kvsname".toList, kvsname),
      ("key".toList, key)], Proper pair := by
    simp only [List.forall_mem_cons]
    exact ⟨by decide, named.proper, proper_key (by decide) stored, List.forall_mem_nil _⟩
  rw [getLine_render]
  have count : 3 ≤ tabLen := by decide
  exact ⟨find_render proper count rfl, find_render proper count rfl⟩

end Store

end Requests

section Serving

variable {size rank : ℕ} {kvsname key value : CString} {kvs : Kvs}

/-- A message of proper pairs to one rank. -/
theorem answers_message {pairs : List (CString × CString)} {cmd : String}
    {Content : (CString → Option CString) → Prop}
    (proper : ∀ pair ∈ ("cmd".toList, cmd.toList) :: pairs, Proper pair)
    (count : pairs.length < tabLen) (short : (message cmd pairs).length < maxLine)
    (content : Content fun key => (("cmd".toList, cmd.toList) :: pairs).lookup key) :
    Answers rank (Reply cmd Content) (toRank rank (message cmd pairs)) :=
  answers_toRank (reply_render proper count short content)

theorem handle_init : handle size kvsname rank initLine kvs =
    (kvs, toRank rank (message "response_to_init" [zero])) := by
  rw [handle, find_init, if_pos rfl]

theorem handle_maxes : handle size kvsname rank maxesLine kvs =
    (kvs, toRank rank (message "maxes" [("kvsname_max".toList, "256".toList)])) := by
  rw [handle, find_maxes, if_neg (by decide), if_pos rfl]

theorem handle_name : handle size kvsname rank nameLine kvs =
    (kvs, toRank rank (message "my_kvsname" [("kvsname".toList, kvsname)])) := by
  rw [handle, find_name, if_neg (by decide), if_neg (by decide), if_pos rfl]

theorem handle_barrier : handle size kvsname rank barrierLine kvs =
    if ∃ other < size, other ≠ rank ∧ other ∉ kvs.waits then
      ({ kvs with waits := insert rank kvs.waits }, fun _ => [])
    else ({ kvs with waits := ∅ }, fun _ => [message "barrier_out" []]) := by
  rw [handle, find_barrier, if_neg (by decide), if_neg (by decide), if_neg (by decide),
    if_neg (by decide), if_neg (by decide)]

section Store

variable (named : Storable "kvsname".toList kvsname) (stored : Storable key value)

include named stored

theorem handle_put : handle size kvsname rank (putLine kvsname key value) kvs =
    ({ kvs with store := Function.update kvs.store key (some value) },
      toRank rank (message "put_result" [zero])) := by
  obtain ⟨cmd, key_found, value_found⟩ := find_put named stored
  rw [handle, cmd, key_found, value_found, if_neg (by decide), if_neg (by decide),
    if_neg (by decide), if_pos rfl]

theorem handle_get (found : kvs.store key = some value) :
    handle size kvsname rank (getLine kvsname key) kvs =
      (kvs, toRank rank (message "get_result" [zero, ("value".toList, value)])) := by
  obtain ⟨cmd, key_found⟩ := find_get named stored
  rw [handle, cmd, key_found, found, if_neg (by decide), if_neg (by decide), if_neg (by decide),
    if_neg (by decide), if_pos rfl]

end Store

theorem message_zero_length {cmd : String} {word : CString} :
    (message cmd [zero, (word, value)]).length =
      cmd.toList.length + word.length + value.length + 12 := by
  simp only [message, render, zero, List.length_append, List.length_cons, List.length_nil]
  have first : "cmd".toList.length = 3 := by decide
  have second : "rc".toList.length = 2 := by decide
  omega

theorem message_length {cmd : String} {word : CString} : (message cmd [(word, value)]).length =
    cmd.toList.length + word.length + value.length + 7 := by
  simp only [message, render, List.length_append, List.length_cons, List.length_nil]
  have first : "cmd".toList.length = 3 := by decide
  omega

end Serving

end Manager

section Board

open Manager

variable {size rank : ℕ} {kvsname key value : CString} {s : Kvs}
  {left : CString → Option CString} {Fits : CString → Prop} {request : CString}

/-- A request that is answered to its rank. -/
theorem handles_of_handle {out : ℕ → List CString}
    (handled : handle size kvsname rank request s = (⟨left, s.waits⟩, out))
    (answers : Answers rank Fits out) :
    Handles (kvsManager size kvsname) Kvs.store (fun s => ↑s.waits) rank request s left Fits := by
  have same : (kvsManager size kvsname).handle rank request s = (⟨left, s.waits⟩, out) := handled
  constructor
  · rw [same]
  · rw [same]
  · rw [same]
    exact answers

theorem handles_init : Handles (kvsManager size kvsname) Kvs.store (fun s => ↑s.waits) rank initLine
    s s.store (Reply "response_to_init" rcZero) :=
  handles_of_handle handle_init (answers_message (by decide) (by decide) (by decide) rfl)

theorem handles_maxes :
    Handles (kvsManager size kvsname) Kvs.store (fun s => ↑s.waits) rank maxesLine s s.store
      (Reply "maxes" smallMaxes) :=
  handles_of_handle handle_maxes
    (answers_message (by decide) (by decide) (by decide) ⟨"256".toList, rfl, by decide⟩)

/-- The first ranks wait in the barrier. -/
theorem manager_wait (missing : ∃ other < size, other ≠ rank ∧ other ∉ (s.waits : Set ℕ)) :
    Kvs.store ((kvsManager size kvsname).handle rank barrierLine s).1 = s.store ∧
    (Kvs.waits ((kvsManager size kvsname).handle rank barrierLine s).1 : Set ℕ) =
      insert rank (s.waits : Set ℕ) ∧
    ∀ other, ((kvsManager size kvsname).handle rank barrierLine s).2 other = [] := by
  have handled : (kvsManager size kvsname).handle rank barrierLine s =
      ({ s with waits := insert rank s.waits }, fun _ => []) :=
    handle_barrier.trans (if_pos missing)
  rw [handled]
  exact ⟨rfl, Finset.coe_insert rank s.waits, fun _ => rfl⟩

theorem manager_release (all : ∀ other < size, other ≠ rank → other ∈ (s.waits : Set ℕ)) :
    Kvs.store ((kvsManager size kvsname).handle rank barrierLine s).1 = s.store ∧
    (Kvs.waits ((kvsManager size kvsname).handle rank barrierLine s).1 : Set ℕ) = ∅ ∧
    ∀ other < size, ∃ line, ((kvsManager size kvsname).handle rank barrierLine s).2 other = [line] ∧
      Line line ∧ Reply "barrier_out" (fun _ => True) line := by
  have present : ¬∃ other < size, other ≠ rank ∧ other ∉ s.waits :=
    fun ⟨other, below, differ, out⟩ => out (all other below differ)
  have handled : (kvsManager size kvsname).handle rank barrierLine s =
      ({ s with waits := ∅ }, fun _ => [message "barrier_out" []]) :=
    handle_barrier.trans (if_neg present)
  rw [handled]
  exact ⟨rfl, Finset.coe_empty, fun _ _ => ⟨_, rfl,
    reply_render (by decide) (by decide) (by decide) trivial⟩⟩

section Store

variable (named : Storable "kvsname".toList kvsname)

include named

theorem handles_name : Handles (kvsManager size kvsname) Kvs.store (fun s => ↑s.waits) rank nameLine
    s s.store (Reply "my_kvsname" (namesKvs kvsname)) := by
  refine handles_of_handle handle_name (answers_message ?_ ?_ ?_ rfl)
  · rw [List.forall_mem_cons, List.forall_mem_singleton]
    exact ⟨by decide, named.proper⟩
  · rw [tabLen, List.length_singleton]
    omega
  · have short := named.short
    have first : "my_kvsname".toList.length = 10 := by decide
    have second : "kvsname".toList.length = 7 := by decide
    rw [message_length, maxLine]
    omega

variable (stored : Storable key value)

include stored

theorem handles_put : Handles (kvsManager size kvsname) Kvs.store (fun s => ↑s.waits) rank
    (putLine kvsname key value) s (Function.update s.store key (some value))
    (Reply "put_result" rcZero) :=
  handles_of_handle (handle_put named stored)
    (answers_message (by decide) (by decide) (by decide) rfl)

theorem handles_get (found : s.store key = some value) :
    Handles (kvsManager size kvsname) Kvs.store (fun s => ↑s.waits) rank (getLine kvsname key) s
      s.store (Reply "get_result" (hasValue value)) := by
  refine handles_of_handle (handle_get named stored found)
    (answers_message ?_ ?_ ?_ ⟨rfl, rfl⟩)
  · rw [List.forall_mem_cons, List.forall_mem_cons, List.forall_mem_singleton]
    exact ⟨by decide, by decide, proper_value (by decide) stored⟩
  · rw [tabLen, List.length_cons, List.length_singleton]
    omega
  · have short := stored.short
    have first : "get_result".toList.length = 10 := by decide
    have second : "value".toList.length = 5 := by decide
    rw [message_zero_length, maxLine]
    omega

end Store

end Board

/-- The manager is a board. -/
def managerBoard (size : ℕ) (kvsname : CString) (named : Storable "kvsname".toList kvsname) :
    Board (kvsManager size kvsname) size kvsname where
  store := Manager.Kvs.store
  waits := fun s => ↑s.waits
  waits_start := Finset.coe_empty
  init := fun _ _ => handles_init
  maxes := fun _ _ => handles_maxes
  name := fun _ _ => handles_name named
  put := fun _ _ _ _ stored => handles_put named stored
  get := fun _ _ _ _ stored found => handles_get named stored found
  wait := fun _ _ missing => manager_wait missing
  release := fun _ _ all => manager_release all

end Lseb
