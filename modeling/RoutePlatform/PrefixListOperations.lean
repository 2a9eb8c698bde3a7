import RoutePlatform.LinkedNodes
import RoutePlatform.OperationRuns
import RoutePlatform.PrefixBytes

/-!
# Prefix lists of `lib/plist.c`

The entries of a prefix list are linked in both directions, in the order of their sequence
numbers. The lists of a master are in two sorted sequences, one for names that are numbers; the
links of these, the hooks and `recent` are left out.
-/

namespace RoutePlatform.PrefixListOperations

open LinkedNodes PrefixBytes Function

/-- A string of the command line. -/
abbrev Str := List Char

/-- The value of a number in an `int`. -/
def toInt32 (x : ℤ) : ℤ := (BitVec.ofInt 32 x).toInt

def isSpace (c : Char) : Bool := c = ' ' ∨ (9≤c.toNat ∧ c.toNat≤13)

def digitsValue (str : Str) : ℕ :=
  (str.takeWhile Char.isDigit).foldl (fun n c => 10*n+(c.toNat - '0'.toNat)) 0

/-- `atol`: blanks, a sign and digits, within the bounds of a `long`. -/
def atol (str : Str) : ℤ :=
  let value : ℤ :=
    match str.dropWhile isSpace with
    | '-' :: digits => -(digitsValue digits : ℤ)
    | '+' :: digits => digitsValue digits
    | digits => digitsValue digits
  max (-2^63) (min (2^63-1) value)

def atoi (str : Str) : ℤ := toInt32 (atol str)

/-- The text before the first slash and behind it. -/
def strchrSlash (str : Str) : Option (Str × Str) :=
  match str.dropWhile (· ≠ '/') with
  | [] => none
  | _::behind => some (str.takeWhile (· ≠ '/'),behind)

/-- The address parsers of the system. -/
structure Libc where
  inetAton : Str→Option Address
  inetPton : Str→Option Address

/-- A length that was checked, with its address. -/
def checkedPrefix (family : Family) (u : Address) (plen : ℕ) : Option Prefix :=
  if h : plen≤family.maxPrefixlen then some ⟨family,plen,u,h⟩ else none

/-- `str2prefix_ipv4` and `str2prefix_ipv6`: no slash is a host, and the length is a `u_char`. -/
def str2prefixWith (parse : Str→Option Address) (family : Family) (str : Str) : Option Prefix :=
  match strchrSlash str with
  | none => (parse str).bind fun u => checkedPrefix family u family.maxPrefixlen
  | some (address,length) =>
    (parse address).bind fun u => checkedPrefix family u (atoi length%256).toNat

def str2prefixIpv4 (libc : Libc) : Str→Option Prefix := str2prefixWith libc.inetAton .inet

def str2prefixIpv6 (libc : Libc) : Str→Option Prefix := str2prefixWith libc.inetPton .inet6

/-- `prefix_same`: the host bits count too. -/
def prefixSame (p q : Prefix) : Bool :=
  p.family=q.family && p.prefixlen=q.prefixlen && p.family ≠ .unspec &&
    sameBytes p.u q.u p.family.bytelen

inductive PrefixListType where
  | deny | permit
  deriving DecidableEq, Repr

/-- `struct prefix_list_entry` without its links. -/
structure PrefixListEntry where
  seq : ℤ
  le : ℤ
  ge : ℤ
  type : PrefixListType
  /-- The entry was given as `any`. -/
  any : Bool
  network : Prefix
  refcnt : ℕ
  hitcnt : ℕ

inductive Master where
  | ipv4 | ipv6 | orf
  deriving DecidableEq, Repr

inductive PrefixNameType where
  | string | number
  deriving DecidableEq, Repr

/-- `struct prefix_list` without its links. -/
structure PrefixList where
  name : Str
  desc : Option Str
  master : Master
  type : PrefixNameType
  count : ℤ
  head : Option ℕ
  tail : Option ℕ

/-- The entries, the lists and the masters. -/
structure PlistState where
  entry : Memory PrefixListEntry
  live : Finset ℕ
  nextEntry : ℕ
  plist : ℕ→PrefixList
  nextList : ℕ
  /-- `num` and `str` of each master. -/
  lists : Master→PrefixNameType→List ℕ

def PlistState.data (s : PlistState) (e : ℕ) : PrefixListEntry := (s.entry e).data

/-- Change the contents of an entry. -/
def PlistState.modifyData (s : PlistState) (e : ℕ) (f : PrefixListEntry→PrefixListEntry) :
    PlistState :=
  {s with entry := update s.entry e {s.entry e with data := f (s.entry e).data}}

def PlistState.modifyList (s : PlistState) (l : ℕ) (f : PrefixList→PrefixList) : PlistState :=
  {s with plist := update s.plist l (f (s.plist l))}

/-- The entries of a list, as the loops of the code reach them. -/
def PlistState.entries (s : PlistState) (l : ℕ) : Option (List ℕ) :=
  chain s.entry s.live.card (s.plist l).head

def prefixListLookup (s : PlistState) (m : Master) (name : Str) : Option ℕ :=
  (s.lists m .number++s.lists m .string).find? fun l => (s.plist l).name=name

/-- Insert before the first member that satisfies the condition. -/
def insertAtPoint (isPoint : ℕ→Bool) (l : ℕ) (xs : List ℕ) : List ℕ :=
  xs.takeWhile (fun x => !isPoint x)++l::xs.dropWhile (fun x => !isPoint x)

/-- A name of digits is entered by its value, which overflows a `long` from 20 digits on; only the
order of the lists depends on it. -/
def prefixListInsert (s : PlistState) (m : Master) (name : Str) : PlistState × ℕ :=
  let l := s.nextList
  let type : PrefixNameType := if name.all Char.isDigit then .number else .string
  let isPoint : ℕ→Bool := fun x =>
    match type with
    | .number => (digitsValue name : ℤ)≤atol (s.plist x).name
    | .string => !decide ((s.plist x).name<name)
  ({s with
      plist := update s.plist l ⟨name,none,m,type,0,none,none⟩
      nextList := l+1
      lists := update s.lists m
        (update (s.lists m) type (insertAtPoint isPoint l (s.lists m type)))},l)

def prefixListGet (s : PlistState) (m : Master) (name : Str) : PlistState × ℕ :=
  match prefixListLookup s m name with
  | some l => (s,l)
  | none => prefixListInsert s m name

def prefixListDelete (s : PlistState) (l : ℕ) : Option PlistState :=
  (s.entries l).map fun es =>
    let m := (s.plist l).master
    let type := (s.plist l).type
    {s with
      live := s.live \ es.toFinset
      lists := update s.lists m (update (s.lists m) type ((s.lists m type).filter (· ≠ l)))}

def prefixListEntryMake (s : PlistState) (network : Prefix) (type : PrefixListType)
    (seq le ge : ℤ) (any : Bool) : PlistState × ℕ :=
  let e := s.nextEntry
  let data : PrefixListEntry :=
    { seq,le,ge,type,any,network := prefixCopy network,refcnt := 0,hitcnt := 0 }
  ({s with
      entry := update s.entry e ⟨none,none,data⟩
      live := insert e s.live
      nextEntry := e+1},e)

def prefixListEntryFree (s : PlistState) (e : ℕ) : PlistState := {s with live := s.live.erase e}

/-- `prefix_new_seq_get`, over the entries. -/
def prefixNewSeqGet (s : PlistState) (es : List ℕ) : ℤ :=
  let maxseq := es.foldl (fun maxseq e => if maxseq<(s.data e).seq then (s.data e).seq
    else maxseq) 0
  toInt32 (maxseq.tdiv 5*5+5)

/-- `prefix_seq_check`, over the entries. -/
def prefixSeqCheck (s : PlistState) (es : List ℕ) (seq : ℤ) : Option ℕ :=
  es.find? fun e => (s.data e).seq=seq

def prefixListEntryLookup (s : PlistState) (es : List ℕ) (network : Prefix)
    (type : PrefixListType) (seq le ge : ℤ) : Option ℕ :=
  es.find? fun e =>
    prefixSame (s.data e).network network && (s.data e).type=type &&
      !(0 ≤ seq && (s.data e).seq≠seq) && (s.data e).le=le && (s.data e).ge=ge

/-- The part of `prefix_list_entry_delete` that is always done. -/
def entryUnlink (s : PlistState) (l e : ℕ) : PlistState :=
  let node := s.entry e
  let s := {s with entry := unlink s.entry e}
  let s := s.modifyList l fun pl =>
    {pl with
      head := if node.prev=none then node.next else pl.head
      tail := if node.next=none then node.prev else pl.tail
      count := pl.count-1}
  prefixListEntryFree s e

/-- `prefix_list_entry_delete`. A list without entries and description is
deleted too. -/
def prefixListEntryDelete (s : PlistState) (l e : ℕ) (updateList : Bool) : Option PlistState :=
  let s := entryUnlink s l e
  let pl := s.plist l
  if updateList ∧ pl.head=none ∧ pl.tail=none ∧ pl.desc=none then prefixListDelete s l
  else some s

/-- Link an entry before the insert point, or at the end. -/
def entryLink (s : PlistState) (l e : ℕ) : Option ℕ→PlistState
  | some point =>
    let first := (s.entry point).prev=none
    let s := {s with entry := attachBefore s.entry point e}
    s.modifyList l fun pl => {pl with head := if first then some e else pl.head,count := pl.count+1}
  | none =>
    let tail := (s.plist l).tail
    let s := {s with entry := attachTail s.entry tail e}
    s.modifyList l fun pl =>
      {pl with
        head := if tail=none then some e else pl.head
        tail := some e
        count := pl.count+1}

def prefixListEntryAdd (s : PlistState) (l e : ℕ) : Option PlistState :=
  (s.entries l).bind fun es =>
    let s := if (s.data e).seq = -1 then
        s.modifyData e fun d => {d with seq := prefixNewSeqGet s es}
      else s
    let replaced :=
      match prefixSeqCheck s es (s.data e).seq with
      | some old => prefixListEntryDelete s l old false
      | none => some s
    replaced.bind fun s =>
      (s.entries l).map fun es =>
        entryLink s l e (es.find? fun point => (s.data e).seq≤(s.data point).seq)

def prefixEntryDupCheck (s : PlistState) (es : List ℕ) (new : PrefixListEntry) : Option ℕ :=
  let seq := if new.seq = -1 then prefixNewSeqGet s es else new.seq
  es.find? fun e =>
    prefixSame (s.data e).network new.network && (s.data e).type=new.type &&
      (s.data e).le=new.le && (s.data e).ge=new.ge && (s.data e).seq≠seq

def prefixListEntryMatch (entry : PrefixListEntry) (p : Prefix) : Bool :=
  if prefixMatch entry.network p=false then false
  else if entry.le=0 ∧ entry.ge=0 then
    !decide (entry.network.prefixlen≠p.prefixlen)
  else if entry.le≠0 ∧ (p.prefixlen : ℤ) > entry.le then false
  else !decide (entry.ge≠0 ∧ (p.prefixlen : ℤ)<entry.ge)

/-- The loop of `prefix_list_apply`. -/
def applyLoop (s : PlistState) (p : Prefix) : List ℕ→PlistState × PrefixListType
  | [] => (s,.deny)
  | e::es =>
    let s := s.modifyData e fun d => {d with refcnt := d.refcnt+1}
    if prefixListEntryMatch (s.data e) p then
      let s := s.modifyData e fun d => {d with hitcnt := d.hitcnt+1}
      (s,(s.data e).type)
    else applyLoop s p es

def prefixListApply (s : PlistState) (plist : Option ℕ) (p : Prefix) :
    Option (PlistState × PrefixListType) :=
  match plist with
  | none => some (s,.deny)
  | some l => if (s.plist l).count=0 then some (s,.permit) else (s.entries l).map (applyLoop s p)

/-- The address families of the commands. -/
inductive Afi where
  | ip | ip6
  deriving DecidableEq, Repr

/-- `prefix_master_get`. -/
def Afi.master : Afi→Master
  | .ip => .ipv4
  | .ip6 => .ipv6

/-- The maximum length of a family. -/
def Afi.maxBitlen : Afi→ℕ
  | .ip => 32
  | .ip6 => 128

/-- What a command answers: success, or a warning with its values. -/
inductive Reply where
  | success
  /-- `% prefix type must be permit or deny`. -/
  | unknownType
  /-- `% Malformed IPv4 prefix` or `% Malformed IPv6 prefix`. -/
  | malformed (afi : Afi)
  /-- `% Invalid prefix range for %s, make sure: len < ge-value <= le-value`. -/
  | invalidRange (network : Str)
  /-- `% Insertion failed - prefix-list entry exists:` and the entry. -/
  | exists (seq : ℤ) (type network : Str) (ge le : Option ℤ)
  /-- `% Can't find specified prefix-list`. -/
  | notFound
  /-- `% Both prefix and type required`. -/
  | incomplete
  /-- `CMD_WARNING` of `prefix_bgp_orf_set`, without a text. -/
  | warning
  deriving DecidableEq

/-- The check of the filter type. -/
def filterType (typestr : Str) : Option PrefixListType :=
  match typestr.head? with
  | some 'p' => some .permit
  | some 'd' => some .deny
  | _ => none

/-- The prefix text is the token `any`, or a part of it. -/
def isAny (network : Str) : Bool := network.isPrefixOf ['a', 'n', 'y']

def commandPrefix (libc : Libc) (afi : Afi) (network : Str) : Option Prefix :=
  match afi with
  | .ip => str2prefixIpv4 libc (if isAny network then "0.0.0.0/0".toList else network)
  | .ip6 => str2prefixIpv6 libc (if isAny network then "::/0".toList else network)

/-- The value of an optional number, or zero. -/
def optionalNumber (text : Option Str) : ℤ := (text.map atoi).getD 0

/-- The check of `ge` and `le`. -/
def invalidPrefixRange (prefixlen : ℕ) (genum lenum : ℤ) : Bool :=
  (genum≠0 && genum≤prefixlen) || (lenum≠0 && lenum≤prefixlen) || (lenum≠0 && genum > lenum)

def vtyPrefixListInstall (libc : Libc) (s : PlistState) (afi : Afi) (name : Str)
    (seq : Option Str) (typestr network : Str) (ge le : Option Str) :
    Option (PlistState × Reply) :=
  let seqnum := (seq.map atoi).getD (-1)
  match filterType typestr with
  | none => some (s,.unknownType)
  | some type =>
    let any := isAny network
    let genum := if any then 0 else optionalNumber ge
    let lenum := if any then (afi.maxBitlen : ℤ) else optionalNumber le
    match commandPrefix libc afi network with
    | none => some (s,.malformed afi)
    | some p =>
      if invalidPrefixRange p.prefixlen genum lenum then some (s,.invalidRange network)
      else
        let lenum := if genum≠0 ∧ lenum=afi.maxBitlen then 0 else lenum
        let got := prefixListGet s afi.master name
        let made := prefixListEntryMake got.1 p type seqnum lenum genum any
        (made.1.entries got.2).bind fun es =>
          match prefixEntryDupCheck made.1 es (made.1.data made.2) with
          | some dup =>
            some (prefixListEntryFree made.1 made.2,.exists (made.1.data dup).seq typestr network
                (if any=false ∧ genum≠0 then some genum else none)
                (if any=false ∧ lenum≠0 then some lenum else none))
          | none => (prefixListEntryAdd made.1 got.2 made.2).map fun s => (s,.success)

def vtyPrefixListUninstall (libc : Libc) (s : PlistState) (afi : Afi) (name : Str)
    (seq typestr network ge le : Option Str) : Option (PlistState × Reply) :=
  match prefixListLookup s afi.master name with
  | none => some (s,.notFound)
  | some l =>
    if seq=none ∧ typestr=none ∧ network=none ∧ ge=none ∧ le=none then
      (prefixListDelete s l).map fun s => (s,.success)
    else
      match typestr, network with
      | some typestr, some network =>
        let seqnum := (seq.map atoi).getD (-1)
        match filterType typestr with
        | none => some (s,.unknownType)
        | some type =>
          let any := isAny network
          let genum := if any then 0 else optionalNumber ge
          let lenum := if any then (afi.maxBitlen : ℤ) else optionalNumber le
          match commandPrefix libc afi network with
          | none => some (s,.malformed afi)
          | some p =>
            (s.entries l).bind fun es =>
              match prefixListEntryLookup s es p type seqnum lenum genum with
              | none => some (s,.notFound)
              | some e => (prefixListEntryDelete s l e true).map fun s => (s,.success)
      | _, _ => some (s,.incomplete)

structure OrfPrefix where
  seq : BitVec 32
  ge : BitVec 8
  le : BitVec 8
  p : Prefix

def prefixBgpOrfSet (s : PlistState) (name : Str) (afi : Afi) (orfp : OrfPrefix)
    (permit set : Bool) : Option (PlistState × Reply) :=
  if invalidPrefixRange orfp.p.prefixlen orfp.ge.toNat orfp.le.toNat then some (s,.warning)
  else
    let le : ℤ := if orfp.ge≠0 ∧ orfp.le.toNat=afi.maxBitlen then 0 else orfp.le.toNat
    let ge : ℤ := orfp.ge.toNat
    let type : PrefixListType := if permit then .permit else .deny
    let got := prefixListGet s .orf name
    if set then
      let made := prefixListEntryMake got.1 orfp.p type orfp.seq.toInt le ge false
      (made.1.entries got.2).bind fun es =>
        match prefixEntryDupCheck made.1 es (made.1.data made.2) with
        | some _ => some (prefixListEntryFree made.1 made.2,.warning)
        | none => (prefixListEntryAdd made.1 got.2 made.2).map fun s => (s,.success)
    else (got.1.entries got.2).bind fun es =>
        match prefixListEntryLookup got.1 es orfp.p type orfp.seq.toInt le ge with
        | none => some (got.1,.warning)
        | some e => (prefixListEntryDelete got.1 got.2 e true).map fun s => (s,.success)

inductive PlistOp where
  | install (afi : Afi) (name : Str) (seq : Option Str) (typestr network : Str) (ge le : Option Str)
  | uninstall (afi : Afi) (name : Str) (seq typestr network ge le : Option Str)
  | orfSet (name : Str) (afi : Afi) (orfp : OrfPrefix) (permit set : Bool)
  /-- `prefix_list_apply` on a list that exists, or on none. -/
  | apply (m : Master) (name : Str) (p : Prefix)

def plistStep (libc : Libc) (s : PlistState) : PlistOp→Option PlistState
  | .install afi name seq typestr network ge le =>
    (vtyPrefixListInstall libc s afi name seq typestr network ge le).map Prod.fst
  | .uninstall afi name seq typestr network ge le =>
    (vtyPrefixListUninstall libc s afi name seq typestr network ge le).map Prod.fst
  | .orfSet name afi orfp permit set => (prefixBgpOrfSet s name afi orfp permit set).map Prod.fst
  | .apply m name p => (prefixListApply s (prefixListLookup s m name) p).map Prod.fst

/-- There are no lists at first. -/
def emptyState : PlistState where
  entry := fun _ => ⟨none,none,⟨0,0,0,.deny,false,⟨.inet,0,zeroAddress,Nat.zero_le _⟩,0,0⟩⟩
  live := ∅
  nextEntry := 0
  plist := fun _ => ⟨[],none,.ipv4,.string,0,none,none⟩
  nextList := 0
  lists := fun _ _ => []

end RoutePlatform.PrefixListOperations
