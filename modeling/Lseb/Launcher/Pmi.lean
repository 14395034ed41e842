import Lseb.Launcher.Wire

/-!
# The client of the process manager

Each call sends one line and waits for one. The process is started by a process
manager, with its rank and the size of the job in the environment; a process
started without one, and calls that the program does not make, are left out.
-/

namespace Lseb

open Foundation

/-- `PMI_size` and `PMI_rank` with the limits that the process manager names, the table
of the last answer, and the connection. -/
structure PmiClient where
  pmiSize : ℕ
  pmiRank : ℕ
  kvsnameMax : ℤ
  keylenMax : ℤ
  vallenMax : ℤ
  keyvalTab : List Pmiu.Keyval
  wire : Wire

abbrev PmiM := EStateM Error PmiClient

namespace Pmi

def success : ℤ := 0
def fail : ℤ := -1

def version : ℕ := 1
def subversion : ℕ := 1

/-- `%d`. -/
def decimal : ℤ → CString
  | .ofNat n => Nat.toDigits 10 n
  | .negSucc n => '-' :: Nat.toDigits 10 (n + 1)

def isSpace (c : Char) : Bool :=
  c == ' ' || c == '\t' || c == '\n' || c == '\x0b' || c == '\x0c' || c == '\r'

/-- The number that a string begins with, or zero. -/
def atoi (s : CString) : ℤ :=
  let digits := fun s : CString => (Nat.ofDigitChars 10 (s.takeWhile Char.isDigit) 0 : ℤ)
  match s.dropWhile isSpace with
  | '-' :: rest => -digits rest
  | '+' :: rest => digits rest
  | rest => digits rest

/-- `MPIU_Snprintf` into a buffer of `n` characters. -/
def snprintf (n : ℕ) (text : CString) : CString := text.take (n - 1)

def onWire {α : Type} (x : EStateM Error Wire α) : PmiM α :=
  zoom PmiClient.wire (fun client wire => { client with wire := wire }) x

def onTab {α : Type} (x : EStateM Error (List Pmiu.Keyval) α) : PmiM α :=
  zoom PmiClient.keyvalTab (fun client tab => { client with keyvalTab := tab }) x

/-- `PMIU_getval` into a buffer of `vallen` characters. -/
def getval (keystr : String) (valstr : CString) (vallen : ℕ) : PmiM (CString × Bool) := do
  return Pmiu.getval (← get).keyvalTab keystr.toList valstr vallen

/-- `GetResponse`: send a request, and parse the line that answers it. -/
def getResponse (request : CString) (expectedCmd : String) (checkRc : Bool) : PmiM ℤ := do
  let err ← onWire (Pmiu.writeline request)
  if err ≠ 0 then return err
  let recvbuf ← onWire (Pmiu.readline Pmiu.maxLine)
  match recvbuf with
  | none => return fail
  | some [] => return fail
  | some (first :: rest) =>
    let err ← onTab (Pmiu.parseKeyvals (first :: rest))
    if err ≠ 0 then return err
    let (cmdName, named) ← getval "cmd" [] Pmiu.maxLine
    if !named then return fail
    if cmdName ≠ expectedCmd.toList then return fail
    if checkRc then
      let (rc, given) ← getval "rc" cmdName Pmiu.maxLine
      if given && rc ≠ ['0'] then return fail
    return err

/-- The second request of `PMII_getmaxes`, with the buffer for the values. -/
def askMaxes (buf : CString) : PmiM ℤ := do
  let err ← getResponse "cmd=get_maxes\n".toList "maxes" false
  if err = success then
    let (kvsname, _) ← getval "kvsname_max" buf Pmiu.maxLine
    let (keylen, _) ← getval "keylen_max" kvsname Pmiu.maxLine
    let (vallen, _) ← getval "vallen_max" keylen Pmiu.maxLine
    modify fun client => { client with
      kvsnameMax := atoi kvsname
      keylenMax := atoi keylen
      vallenMax := atoi vallen }
  return err

/-- `PMII_getmaxes`; a message of the abort is its first words. -/
def getmaxes : PmiM ℤ := do
  let buf := snprintf Pmiu.maxLine ("cmd=init pmi_version=".toList ++ decimal version ++
    " pmi_subversion=".toList ++ decimal subversion ++ ['\n'])
  let rc ← onWire (Pmiu.writeline buf)
  if rc ≠ 0 then return fail
  match ← onWire (Pmiu.readline Pmiu.maxLine) with
  | none => throw (.exitFailure "Above error when reading after init")
  | some buf =>
    let _ ← onTab (Pmiu.parseKeyvals buf)
    let (cmd, _) ← getval "cmd" [] Pmiu.maxLine
    if cmd ≠ "response_to_init".toList then
      throw (.exitFailure "got unexpected response to init")
    let (rc, _) ← getval "rc" buf Pmiu.maxLine
    if rc ≠ ['0'] then throw (.exitFailure "pmi_version mismatch")
    askMaxes rc

/-- `PMI_Init`, with the connection that the environment names. -/
def init : PmiM ℤ := do
  let _ ← getmaxes
  return success

def getSize : PmiM (ℕ × ℤ) := do
  return ((← get).pmiSize, success)

def getRank : PmiM (ℕ × ℤ) := do
  return ((← get).pmiRank, success)

def barrier : PmiM ℤ := getResponse "cmd=barrier_in\n".toList "barrier_out" false

def kvsGetNameLengthMax : PmiM (ℤ × ℤ) := do
  return ((← get).kvsnameMax, success)

/-- `PMI_KVS_Get_my_name`; the name is not written when the call fails. -/
def kvsGetMyName (kvsname : CString) (length : ℕ) : PmiM (CString × ℤ) := do
  let err ← getResponse "cmd=get_my_kvsname\n".toList "my_kvsname" false
  if err = success then
    let (name, _) ← getval "kvsname" kvsname length
    return (name, err)
  return (kvsname, err)

def kvsPut (kvsname key value : CString) : PmiM ℤ :=
  getResponse (snprintf Pmiu.maxLine ("cmd=put kvsname=".toList ++ kvsname ++ " key=".toList ++
    key ++ " value=".toList ++ value ++ ['\n'])) "put_result" true

/-- `PMI_KVS_Commit` does nothing. -/
def kvsCommit : PmiM ℤ := return success

def kvsGet (kvsname key value : CString) (length : ℕ) : PmiM (CString × ℤ) := do
  let buf := snprintf Pmiu.maxLine ("cmd=get kvsname=".toList ++ kvsname ++ " key=".toList ++
    key ++ ['\n'])
  let err ← getResponse buf "get_result" false
  if err = success then
    let (buf, _) ← getval "rc" buf Pmiu.maxLine
    if atoi buf = 0 then
      let (value, _) ← getval "value" value length
      return (value, 0)
    else return (value, -1)
  return (value, err)

end Pmi

/-- `HydraLauncher`, with the client it calls. -/
structure HydraLauncher where
  kvsName : CString
  pmi : PmiClient

abbrev LauncherM := EStateM Error HydraLauncher

namespace HydraLauncher

def cstPMIErrors : List String :=
  ["SUCCESS", "FAIL", "ERR_INIT", "ERR_NOMEM", "ERR_INVALID", "ERR_INVALID_KEY",
    "ERR_INVALID_KEY", "ERR_INVALID_VAL", "ERR_INVALID_VAL_LENGTH", "ERR_INVALID_LENGTH",
    "ERR_INVALID_NUM_ARGS", "ERR_INVALID_ARGS", "ERR_INVALID_NUM_PARSED", "ERR_INVALID_KEYVALP",
    "ERR_INVALID_SIZE"]

/-- `PMI_CHECK_STATUS`. -/
def checkStatus (funcName : String) (status : ℤ) : LauncherM Unit :=
  if status = Pmi.success then pure ()
  else
    match status with
    | .ofNat n =>
      match cstPMIErrors[n]? with
      | some text => throw (.exitFailure s!"Failed onto {funcName} with code {n} : {text}")
      | none => throw (.fault "cstPMIErrors[status]")
    | .negSucc _ => throw (.fault "cstPMIErrors[status]")

def onPmi {α : Type} (x : PmiM α) : LauncherM α :=
  zoom pmi (fun launcher pmi => { launcher with pmi := pmi }) x

def initializePmi : LauncherM Unit := do
  let status ← onPmi Pmi.init
  checkStatus "PMI_Init" status
  let (size, status) ← onPmi Pmi.kvsGetNameLengthMax
  checkStatus "PMI_KVS_Get_name_length_max" status
  if size ≥ 1024 then throw (.exitFailure "Too small buffer to get KVS name")
  let (name, status) ← onPmi (Pmi.kvsGetMyName (← get).kvsName 1024)
  modify fun launcher => { launcher with kvsName := name }
  checkStatus "PMI_KVS_Get_my_name" status

def barrier : LauncherM Unit := do
  let status ← onPmi Pmi.barrier
  checkStatus "PMI_Barrier" status

def getWorldSize : LauncherM ℕ := do
  let (size, status) ← onPmi Pmi.getSize
  checkStatus "PMI_Get_size" status
  return size

def getRank : LauncherM ℕ := do
  let (rank, status) ← onPmi Pmi.getRank
  checkStatus "PMI_Get_rank" status
  return rank

def commit : LauncherM Unit := do
  let status ← onPmi Pmi.kvsCommit
  checkStatus "PMI_KVS_Commit" status

/-- `sprintf(buffer, "%s-%d", key, rank)` into a buffer of 512 characters. -/
def rankKey (key : CString) (rank : ℕ) : LauncherM CString :=
  let buffer := key ++ '-' :: Pmi.decimal rank
  if buffer.length < 512 then pure buffer else throw (.fault "buffer[512]")

def set (key value : CString) : LauncherM Unit := do
  let rank ← getRank
  let buffer ← rankKey key rank
  let status ← onPmi (Pmi.kvsPut (← get).kvsName buffer value)
  checkStatus "PMI_KVS_Put" status

def get (key : CString) (rank : ℕ) : LauncherM CString := do
  let buffer ← rankKey key rank
  let launcher ← MonadState.get
  let (outputBuffer, status) ← onPmi (Pmi.kvsGet launcher.kvsName buffer [] 1024)
  checkStatus "PMI_KVS_Get" status
  return outputBuffer

end HydraLauncher

/-- `Endpoint`. -/
structure Endpoint where
  mHostname : CString
  mPort : CString
  deriving DecidableEq, Repr

namespace HydraLauncher

/-- One turn of the loop of `get_endpoints`; the compiler chooses which argument of
`emplace_back` is evaluated first. -/
def getEndpoint (portFirst : Bool) (i : ℕ) : LauncherM Endpoint := do
  if portFirst then
    let port ← get "port".toList i
    let hostname ← get "ip".toList i
    return ⟨hostname, port⟩
  else
    let hostname ← get "ip".toList i
    let port ← get "port".toList i
    return ⟨hostname, port⟩

def getEndpointsFrom (portFirst : Bool) : ℕ → ℕ → LauncherM (List Endpoint)
  | _, 0 => return []
  | i, count + 1 => do
    let endpoint ← getEndpoint portFirst i
    let endpoints ← getEndpointsFrom portFirst (i + 1) count
    return endpoint :: endpoints

/-- `get_endpoints`. -/
def getEndpoints (portFirst : Bool) : LauncherM (List Endpoint) := do
  let nodes ← getWorldSize
  getEndpointsFrom portFirst 0 nodes

/-- What `main` does with the launcher: the port is that of the configuration with an offset
of the rank, written to a buffer of 8 characters. -/
def exchange (ip : CString) (port range : ℤ) (portFirst : Bool) :
    LauncherM (ℕ × List Endpoint) := do
  initializePmi
  let rank ← getRank
  if range = 0 then throw (.fault "launcher.getRank()%range")
  let portStr := Pmi.decimal (port + Int.tmod rank range)
  if 8 ≤ portStr.length then throw (.fault "portStr[8]")
  set "ip".toList ip
  set "port".toList portStr
  commit
  barrier
  let id ← getRank
  let endpoints ← getEndpoints portFirst
  return (id, endpoints)

end HydraLauncher

end Lseb
