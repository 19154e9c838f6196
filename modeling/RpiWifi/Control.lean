-- The control commands of the driver: `etherbcmctl` splits a command line into
-- words, looks the first one up and lets each command check its arguments and
-- write its fields. A null pointer that is used, and a copy with a negative
-- length, are faults: the call does not come back, and the fault says why.
import RpiWifi.Driver
import RpiWifi.CStrings

namespace rpi_wifi.ether4330

open plibc

/-! ## The state -/

/-- `WKey`. -/
structure WKey where
  len : BitVec 16
  dat : List Byte
  deriving DecidableEq

/-- The types of encryption, and 0 for none. -/
inductive Crypto where
  | off
  | Wpa
  | Wep
  | Wpa2
  deriving DecidableEq

/-- The value of `cryptotype`. -/
def Crypto.value : Crypto → BitVec 32
  | .off => 0
  | .Wpa => 1
  | .Wep => 2
  | .Wpa2 => 3

/-- The part of the `Ctlr` that control commands read and write. `essid` is the
whole array, also behind its NUL. -/
structure Ctlr where
  essid : List Byte
  chanid : Int
  cryptotype : Crypto
  keys : Fin 4 → WKey
  scansecs : BitVec 32
  status : Status

/-- `essid[0]` is not NUL. -/
def Ctlr.hasEssid (ctl : Ctlr) : Bool := ctl.essid.headD 0 != 0

/-- The string in `essid`. -/
def Ctlr.ssid (ctl : Ctlr) : CString := ctl.essid.takeWhile (· != 0)

/-- What a call faults on: the null pointer of `lookupcmd`, an argument slot
`cb->f[k]` that `parsecmd` left null, or a copy of -1 bytes. -/
inductive Fault where
  | nullEntry
  | nullArgument (k : Nat)
  | badLength
  deriving DecidableEq

/-- How a call ends: with a value, the state, the commands that were sent and
whether the Cmdbuf was given back; in a wait for the chip that does not end; or
in a fault. -/
inductive Outcome where
  | returned (value : Int) (ctl : Ctlr) (sent : List Request) (released : Bool)
  | waits
  | fault (why : Fault)

/-! ## Commands to the chip -/

def SetVar : BitVec 32 := 263

/-- `wlsetvar`, as the command that it hands to `wlcmd`. -/
def wlsetvar (name : String) (val : Packet) : Request :=
  ⟨true, SetVar, cstr name ++ [0], val, val.length⟩

def wlsetint (name : String) (val : BitVec 32) : Request := wlsetvar name (put4 val)

/-- The bytes, with NULs behind them up to a length. -/
def padded (bytes : Packet) (n : Nat) : Packet := bytes ++ List.replicate (n - bytes.length) 0

/-- The start of a key parameter: the index, the length and the key with its padding. -/
def keyParams (index : BitVec 32) (key : WKey) : Packet :=
  put4 index ++ put4 (key.len.setWidth 32) ++ padded (key.dat.take key.len.toNat) (32 + 18 * 4)

def WMinKeyLen : Nat := 5

def WMaxKeyLen : Nat := 13

def WKeyLen : Nat := 32

/-- `wlwepkey`, for key `i`. -/
def wlwepkey (ctl : Ctlr) (i : Fin 4) : Request :=
  let key := ctl.keys i
  let algo := if key.len.toNat = WMinKeyLen then 1 else 3
  wlsetvar "wsec_key" (padded (keyParams (BitVec.ofNat 32 i) key ++ put4 algo ++ put4 2) 164)

/-- The commands that set a key for WPA. -/
inductive KeySlot where
  | rxkey
  | group (id : Fin 4)
  | txkey
  deriving DecidableEq

/-- `wlwpakey`. The command "rxkey" sends nothing. -/
def wlwpakey (ctl : Ctlr) (slot : KeySlot) (iv : Nat) (ea : List Byte) : List Request :=
  match slot with
  | .rxkey => []
  | .group id => [wlsetvar "wsec_key" (params (BitVec.ofNat 32 id) 2 [])]
  | .txkey => [wlsetvar "wsec_key" (params 0 0 (ea.take Eaddrlen))]
where
  params (id flags : BitVec 32) (addr : List Byte) : Packet :=
    let algo := if ctl.cryptotype = .Wpa then 2 else 4
    let head := keyParams id (ctl.keys 0) ++ put4 algo ++ put4 flags
    let ivs := put4 (BitVec.ofNat 32 (iv / 2 ^ 16)) ++ put2 (BitVec.ofNat 16 iv)
    padded (padded (padded head 140 ++ ivs) 156 ++ addr) 164

/-- The parameter of the "join" variable in `wljoin`. -/
def joinParams (ssid : CString) (chan : BitVec 32) (bssid : Option (List Byte)) : Packet :=
  let chan := if chan = 0 then 0 else chan ||| 0x2b00
  let n := min ssid.length 32
  let probes := if chan ≠ 0 then put4 2 ++ put4 120 ++ put4 390 else put4 (-1) ++ put4 (-1) ++ put4 (-1)
  let chans := if chan ≠ 0 then put4 1 ++ put2 (chan.setWidth 16) ++ put2 0 else put4 0
  put4 (BitVec.ofNat 32 n) ++ padded (ssid.take n) 32 ++ put4 0xff ++ probes ++ put4 (-1) ++
    (bssid.getD (List.replicate Eaddrlen 0xFF)) ++ put2 0 ++ chans

/-- `wljoin`: the "join" variable goes out, and then the call waits until an event
sets `joinstatus`. There is no result when none does. -/
def wljoin (ctl : Ctlr) (joinstatus : BitVec 32) (bssid : Option (List Byte)) :
    Option (Ctlr × List Request) :=
  if joinstatus = 0 then none
  else
    some ({ ctl with status := if joinstatus - 1 = 0 then .Connected else .Disconnected },
      [wlsetvar "join" (joinParams ctl.ssid (BitVec.ofInt 32 ctl.chanid) bssid)])

/-! ## Encryption -/

/-- `setcrypt`: the new type, if the word names one. -/
def cryptNamed (a : CString) : Option Crypto :=
  if strcasecmp a (cstr "wep") = 0 ∨ strcasecmp a (cstr "on") = 0 then some .Wep
  else if strcasecmp a (cstr "off") = 0 ∨ strcasecmp a (cstr "none") = 0 then some .off
  else none

def setcrypt (ctl : Ctlr) (a : CString) : Option (Ctlr × List Request) :=
  (cryptNamed a).map fun c => ({ ctl with cryptotype := c }, [wlsetint "auth" c.value])

/-- `setauth`, with what the stack holds in `wpaie` before. A bad element is
reported, and goes out all the same. There is no result when the number of its
bytes is -1. -/
def setauth (ctl : Ctlr) (stack : List Byte) (a : CString) : Option (Ctlr × List Request) :=
  let (wpaie, i) := parsehex stack 32 a
  let ctl :=
    if wpaie.headD 0 = 0xdd then { ctl with cryptotype := .Wpa }
    else if wpaie.headD 0 = 0x30 then { ctl with cryptotype := .Wpa2 }
    else ctl
  if i < 0 then none
  else
    some (ctl, wlsetvar "wpaie" (wpaie.take i.toNat) ::
      if ctl.cryptotype = .Wpa then
        [wlsetint "wpa_auth" 6, wlsetint "auth" 0, wlsetint "wsec" 2, wlsetint "wpa_auth" 4]
      else
        [wlsetint "wpa_auth" 0xC0, wlsetint "auth" 0, wlsetint "wsec" 4, wlsetint "wpa_auth" 0x80])

/-! ## Keys -/

/-- A byte for each pair of hexadecimal digits, if there is nothing else. -/
def hexBytes : CString → Option (List Byte)
  | [] => some []
  | a :: b :: cs => do
    let x ← hexDigit a
    let y ← hexDigit b
    let rest ← hexBytes cs
    return (x <<< 4 ||| y) :: rest
  | [_] => none

/-- `wepparsekey`: the new key, if there is no error. -/
def wepparsekey (a : CString) : Option WKey :=
  let len := a.length
  if len = WMinKeyLen ∨ len = WMaxKeyLen then
    some ⟨BitVec.ofNat 16 len, padded a WKeyLen⟩
  else if len = WMinKeyLen * 2 ∨ len = WMaxKeyLen * 2 then
    (hexBytes a).map fun buf => ⟨BitVec.ofNat 16 buf.length, padded buf WKeyLen⟩
  else none

/-- `wpaparsekey`: the key as it stands at the end, and the `iv` if there is no
error. The bytes of the key are written before the rest is checked. -/
def wpaparsekey (key : WKey) (a : CString) : WKey × Option Nat :=
  if strncasecmp a (cstr "tkip:") 5 = 0 ∨ strncasecmp a (cstr "ccmp:") 5 = 0 then
    let a := a.drop 5
    let (dat, len) := parsehex key.dat WKeyLen a
    if len ≤ 0 then ({ key with dat }, none)
    else
      let key : WKey := ⟨BitVec.ofInt 16 len, dat⟩
      match a.drop (2 * len.toNat) with
      | 64 :: a =>
        let (iv, e) := strtoull a 16
        if e.length = a.length then (key, none) else (key, some iv)
      | _ => (key, none)
  else (key, none)

/-! ## The commands -/

/-- The index of a command in `cmds`. -/
inductive CM where
  | auth
  | channel
  | crypt
  | essid
  | key (i : Fin 4)
  | wpakey (slot : KeySlot)
  | debug
  | join
  | disassoc
  | escan
  | country
  | create
  deriving DecidableEq

/-- The words of the table `cmds`, in its order. -/
def cmds : List (CM × String) :=
  [(.auth, "auth"), (.channel, "channel"), (.crypt, "crypt"), (.essid, "essid"), (.key 0, "key1"),
    (.key 1, "key2"), (.key 2, "key3"), (.key 3, "key4"), (.wpakey .rxkey, "rxkey"),
    (.wpakey (.group 0), "rxkey0"), (.wpakey (.group 1), "rxkey1"), (.wpakey (.group 2), "rxkey2"),
    (.wpakey (.group 3), "rxkey3"), (.wpakey .txkey, "txkey"), (.debug, "debug"), (.join, "join"),
    (.disassoc, "disassoc"), (.escan, "escan"), (.country, "country"), (.create, "create")]

/-- `parsecmd`: the words of the first 199 characters, and no more than ten. -/
def parsecmd (str : CString) : List CString := tokens 10 (str.take 199)

/-- `lookupcmd`: the command, if the first word is there and names one. -/
def lookupcmd (f : List CString) : Option CM :=
  match f with
  | [] => none
  | name :: _ => (cmds.find? fun c => strcasecmp name (cstr c.2) = 0).map Prod.fst

/-- `strncpy` into `essid` with the NUL at its end, or all NULs for "default". -/
def setEssid (ctl : Ctlr) (a : CString) : Ctlr :=
  if strcasecmp a (cstr "default") = 0 then { ctl with essid := List.replicate 33 0 }
  else { ctl with essid := (strncpy ctl.essid a 32).set 32 0 }

/-- The command of `wlsetcountry`, when the code is two capital letters. The bytes behind the
NULs of the two codes are what the stack holds in `params` before. -/
def wlsetcountry (stack : List Byte) (a : CString) : List Request :=
  match a with
  | [x, y] =>
    if 65 ≤ x.toNat ∧ x.toNat ≤ 90 ∧ 65 ≤ y.toNat ∧ y.toNat ≤ 90 then
      [wlsetvar "country" ([x, y, 0, stack.getD 3 0] ++ put4 (-1) ++ [x, y, 0, stack.getD 11 0])]
    else []
  | _ => []

/-- The way of a command that went through: the Cmdbuf is given back. -/
def done (n : Nat) (ctl : Ctlr) (sent : List Request) : Outcome := .returned n ctl sent true

/-- The way of a command that found an error: `return 0` from inside the switch. -/
def failed (ctl : Ctlr) (sent : List Request) : Outcome := .returned 0 ctl sent false

/-- The last step of a command that joins a network. -/
def joinAndReturn (n : Nat) (ctl : Ctlr) (sent : List Request) (joinstatus : BitVec 32)
    (bssid : Option (List Byte)) : Outcome :=
  match wljoin ctl joinstatus bssid with
  | none => .waits
  | some (ctl, more) => done n ctl (sent ++ more)

/-- The same when `essid` is set, and nothing more when it is not. -/
def joinIfEssid (n : Nat) (ctl : Ctlr) (sent : List Request) (joinstatus : BitVec 32)
    (bssid : Option (List Byte)) : Outcome :=
  if ctl.hasEssid then joinAndReturn n ctl sent joinstatus bssid else done n ctl sent

/-- The case CMjoin: `join essid bssid channel wep|on|off|wpakey`. -/
def cmJoin (n : Nat) (ctl : Ctlr) (f : List CString) (stack : List Byte) (joinstatus : BitVec 32) :
    Outcome :=
  match f[1]? with
  | none => .fault (.nullArgument 1)
  | some name =>
    if name = [] ∧ ctl.hasEssid = false then failed ctl []
    else
      let ctl := if name = [] then ctl else setEssid ctl name
      match f[2]? with
      | none => .fault (.nullArgument 2)
      | some addr =>
        match parseether addr with
        | none => failed ctl []
        | some ea =>
          match f[3]? with
          | none => .fault (.nullArgument 3)
          | some chan =>
            if 0 ≤ atoi chan ∧ atoi chan ≤ 16 then
              let ctl := { ctl with chanid := atoi chan }
              match f[4]? with
              | none => .fault (.nullArgument 4)
              | some a =>
                match setcrypt ctl a with
                | some (ctl, sent) => joinIfEssid n ctl sent joinstatus (some ea)
                | none =>
                  match setauth ctl stack a with
                  | none => .fault .badLength
                  | some (ctl, sent) => joinIfEssid n ctl sent joinstatus (some ea)
            else failed ctl []

/-- `etherbcmctl` on a command line of `n` characters. `stack` is what `wpaie` or `params`
holds before it is written, and `joinstatus` what an event leaves for `waitjoin`. -/
def etherbcmctl (ctl : Ctlr) (str : CString) (stack : List Byte) (joinstatus : BitVec 32) :
    Outcome :=
  let n := str.length
  let f := parsecmd str
  -- A command with no argument uses the null pointer in its place.
  let withArg (k : CString → Outcome) : Outcome := (f[1]?).elim (.fault (.nullArgument 1)) k
  match lookupcmd f with
  | none =>
    -- Without a word, `lookupcmd` compares the null pointer in slot 0.
    .fault (if f = [] then .nullArgument 0 else .nullEntry)
  | some cm =>
    match cm with
    | .auth => withArg fun a =>
      match setauth ctl stack a with
      | none => .fault .badLength
      | some (ctl, sent) => joinIfEssid n ctl sent joinstatus none
    | .channel => withArg fun a =>
      if atoi a < 0 ∨ 16 < atoi a then failed ctl [] else done n { ctl with chanid := atoi a } []
    | .crypt => withArg fun a =>
      match setcrypt ctl a with
      | none => failed ctl []
      | some (ctl, sent) => joinIfEssid n ctl sent joinstatus none
    | .essid => withArg fun a => joinAndReturn n (setEssid ctl a) [] joinstatus none
    | .key i => withArg fun a =>
      match wepparsekey a with
      | none => failed ctl []
      | some key =>
        let ctl := { ctl with keys := Function.update ctl.keys i key }
        done n ctl [wlsetint "wsec" 1, wlwepkey ctl i]
    | .wpakey slot => withArg fun a =>
      match parseether a with
      | none => failed ctl []
      | some ea =>
        match f[2]? with
        | none => .fault (.nullArgument 2)
        | some b =>
          let (key, iv) := wpaparsekey (ctl.keys 0) b
          let ctl := { ctl with keys := Function.update ctl.keys 0 key }
          match iv with
          | none => failed ctl []
          | some iv => done n ctl (wlwpakey ctl slot iv ea)
    | .debug => done n ctl []
    | .join => cmJoin n ctl f stack joinstatus
    | .disassoc => done n ctl []
    | .escan => withArg fun a => done n { ctl with scansecs := BitVec.ofInt 32 (atoi a) } []
    | .country => withArg fun a => done n ctl (wlsetcountry stack a)
    | .create => done n ctl []

end rpi_wifi.ether4330
