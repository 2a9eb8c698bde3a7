import RoutePlatform.BabelPackets

/-!
# Babel: what `parse_packet` reads

The parser ends on every packet, and it reads only inside it and uses only default prefixes that
were set exactly when the bytes that are counted here for every kind of message lie in the packet
and no update is let through on the default prefix of the other family.
-/

namespace RoutePlatform.BabelPackets

open ReadTrace ReadTrace.Reading Parser

variable {mem : Memory} {n : ℕ} {neighbour : Address} {s : Parser} {R : Receiver} {α : Type}
  {s' : Parser} {message bodylen : ℕ} (ae : ℕ) {r : Reading α} {a alen : ℕ} {β : Type} {len : ℕ}

theorem below_map_iff {f : α→β} : Within (f <$> r) mem 0 n ↔ Within r mem 0 n := by
  change Within (r >>= fun x => pure (f x)) mem 0 n ↔ _
  rw [within_bind_iff]
  exact and_iff_left (within_pure _)

@[simp] theorem value_map {f : α→β} :
    (f <$> r : Reading β).value mem=f (r.value mem) := rfl

theorem below_pure_iff {x : α} : Within (pure x : Reading α) mem 0 n ↔ True :=
  iff_true_intro (within_pure x)

/-- The number of bytes that `network_prefix` reads. -/
def prefixRead (ae : ℕ) (plen : ℤ) (omitted : ℕ) (dp : Option Address) (len : ℕ) : ℕ :=
  let pb := prefixBytes ae plen
  if pb > 16 then 0
  else if ae=1 then
    if omitted > 4 ∨ pb > 4 ∨ (pb > omitted ∧ len<pb-omitted) then 0
    else if omitted≠0 ∧ !(dp.any v4mapped) then 0
    else pb-omitted
  else if ae=2 then
    if omitted > 16 ∨ (pb > omitted ∧ len<pb-omitted) then 0
    else if omitted≠0 ∧ !(dp.any fun a => !v4mapped a) then 0
    else pb-omitted
  else if ae=3 then (if pb > 8 ∧ len<pb-8 then 0 else pb-8)
  else 0

theorem below_networkPrefix_iff (plen : ℤ) (omitted p : ℕ) (dp : Option Address) (len : ℕ) :
    Within (networkPrefix ae plen omitted p dp len) mem 0 n ↔
      prefixRead ae plen omitted dp len=0 ∨ p+prefixRead ae plen omitted dp len≤n := by
  unfold networkPrefix prefixRead
  dsimp only
  split
  · simp [below_pure_iff]
  by_cases h0 : ae=0
  · simp [h0,below_pure_iff]
  rw [if_neg h0]
  split
  · split
    · simp [below_pure_iff]
    split
    · simp [below_pure_iff]
    · rw [within_bind_iff,below_pure_iff,and_true,below_bytes_iff]
  split
  · split
    · simp [below_pure_iff]
    split
    · simp [below_pure_iff]
    · rw [within_bind_iff,below_pure_iff,and_true,below_bytes_iff]
  split
  · split
    · simp [below_pure_iff]
    · rw [within_bind_iff,below_pure_iff,and_true,below_bytes_iff]
  · simp [below_pure_iff]

/-- `network_prefix` reads as many bytes as it answers; none of a malformed prefix. -/
theorem prefixRead_eq (mem : Memory) (ae : ℕ) (plen : ℤ) (omitted p : ℕ) (dp : Option Address)
    (len : ℕ) :
    prefixRead ae plen omitted dp len =
      ((networkPrefix ae plen omitted p dp len).value mem).ret.toNat := by
  unfold networkPrefix prefixRead
  dsimp only
  split
  · rfl
  by_cases h0 : ae=0
  · simp [h0]
  rw [if_neg h0]
  split
  · split
    · rfl
    split
    · rfl
    · simp
  split
  · split
    · rfl
    split
    · rfl
    · simp
  split
  · split
    · rfl
    simp
    omega
  · rfl

/-- `network_prefix` gets to look at the default prefix. -/
def looksAtDefault (ae plen omitted len : ℕ) : Bool :=
  let pb := (plen+7)/8
  decide (pb≤16 ∧ omitted≠0 ∧ ¬(pb > omitted ∧ len<pb-omitted)) &&
    ((ae=1 && decide (omitted≤4 ∧ pb≤4)) || (ae=2 && decide (omitted≤16)))

theorem usesDefault_eq (plen omitted p len : ℕ) (dp : Address) :
    ((networkPrefix ae plen omitted p (some dp) len).value mem).usesDefault =
      looksAtDefault ae plen omitted len := by
  have hpb : prefixBytes ae plen=(plen+7)/8 := by
    rw [prefixBytes,if_pos (Int.natCast_nonneg _),Int.toNat_natCast]
  unfold networkPrefix looksAtDefault
  rw [hpb]
  by_cases h16 : (plen+7)/8 > 16
  · rw [if_pos h16]
    simp [malformed]
    omega
  rw [if_neg h16]
  by_cases h0 : ae=0
  · simp [h0]
  rw [if_neg h0]
  by_cases h1 : ae=1
  · rw [if_pos h1]
    by_cases hfits : omitted > 4 ∨ (plen+7)/8 > 4 ∨ ((plen+7)/8 > omitted ∧ len<(plen+7)/8-omitted)
    · rw [if_pos hfits]
      simp [malformed,h1]
      omega
    rw [if_neg hfits]
    simp [h1]
    split
    · simp [malformed]
      omega
    rw [Bool.eq_iff_iff]
    simp
    omega
  · rw [if_neg h1]
    by_cases h2 : ae=2
    · rw [if_pos h2]
      by_cases hfits : omitted > 16 ∨ ((plen+7)/8 > omitted ∧ len<(plen+7)/8-omitted)
      · rw [if_pos hfits]
        simp [malformed,h2]
        omega
      rw [if_neg hfits]
      simp [h2]
      split
      · simp [malformed]
        omega
      rw [Bool.eq_iff_iff]
      simp
      omega
    · rw [if_neg h2]
      by_cases h3 : ae=3
      · rw [if_pos h3]
        split
        · simp [malformed,h3]
        · simp [h3]
      rw [if_neg h3]
      simp [malformed,h1,h2]

/-- The number of bytes that `memchr` looks at. -/
def memchrRead (mem : Memory) : ℕ→ℕ→ℕ
  | _, 0 => 0
  | a, k+1 => if mem a=0 then 1 else memchrRead mem (a+1) k+1

theorem below_memchr0_iff (k : ℕ) :
    ∀ a, Within (memchr0 a k) mem 0 n ↔ k=0 ∨ a+memchrRead mem a k≤n := by
  induction k with
  | zero => exact fun a => ⟨fun _ => .inl rfl,fun _ => within_pure _⟩
  | succ k ih =>
    intro a
    rw [memchr0,within_bind_iff,below_byte_iff,value_byte,memchrRead]
    split
    · rw [below_pure_iff,and_true]
      omega
    rw [ih]
    cases k with
    | zero =>
      rw [memchrRead]
      omega
    | succ k => omega

theorem memchrRead_le (mem : Memory) (k : ℕ) : ∀ a, memchrRead mem a k≤k := by
  induction k with
  | zero => exact fun a => le_rfl
  | succ k ih =>
    intro a
    have h := ih (a+1)
    rw [memchrRead]
    split <;> omega

theorem memchrRead_eq {k : ℕ} : ∀ {a}, (memchr0 a k).value mem=false → memchrRead mem a k=k := by
  induction k with
  | zero => exact fun _ => rfl
  | succ k ih =>
    intro a h
    rw [memchr0,value_bind,value_byte] at h
    rw [memchrRead]
    split
    · rename_i h0
      rw [if_pos h0] at h
      cases h
    rename_i h0
    rw [if_neg h0] at h
    rw [ih h]

/-- The attribute bytes that are looked at from an offset on. -/
def attributesRead (mem : Memory) (a alen : ℕ) : ℕ→ℕ→ℕ
  | 0, _ => 0
  | fuel+1, i =>
    if i<alen then
      let len := (mem (a+(i+1))).toNat
      if mem (a+i)=0 then max (i+1) (attributesRead mem a alen fuel (i+1))
      else if i+len > alen then i+2
      else if mem (a+i)=2 then
        let len := min len diversityHops
        if (memchr0 (a+(i+2)) len).value mem then i+2+memchrRead mem (a+(i+2)) len
        else max (i+2+len) (attributesRead mem a alen fuel (i+(len+2)))
      else max (i+2) (attributesRead mem a alen fuel (i+(len+2)))
    else 0

theorem below_attributesLoop_iff (ha : a≤n) (fuel : ℕ) :
    ∀ i channels, Within (attributesLoop a alen fuel i channels) mem 0 n ↔
      a+attributesRead mem a alen fuel i≤n := by
  induction fuel with
  | zero =>
    intro i channels
    rw [attributesLoop,attributesRead,below_pure_iff]
    simpa using ha
  | succ fuel ih =>
    intro i channels
    rw [attributesLoop,attributesRead]
    split
    · dsimp only
      rw [within_bind_iff,below_byte_iff,value_byte]
      split
      · rw [ih]
        omega
      rw [if_neg (by omega),within_bind_iff,below_byte_iff,value_byte]
      split
      · rw [below_pure_iff,and_true]
        omega
      split
      · rw [within_bind_iff,below_memchr0_iff]
        have hle := memchrRead_le mem (min (mem (a+(i+1))).toNat diversityHops) (a+(i+2))
        cases hreserved : (memchr0 (a+(i+2))
            (min (mem (a+(i+1))).toNat diversityHops)).value mem with
        | true =>
          rw [if_pos rfl,if_pos rfl,below_pure_iff,and_true]
          omega
        | false =>
          rw [if_neg Bool.false_ne_true,if_neg Bool.false_ne_true,within_bind_iff,
            below_bytes_iff,ih,memchrRead_eq hreserved]
          omega
      · rw [ih]
        omega
    · rw [below_pure_iff]
      simpa using ha

theorem attributesLoop_ends (fuel : ℕ) : ∀ {i} channels, alen≤fuel+i →
      ((attributesLoop a alen fuel i channels).value mem).isSome=true := by
  induction fuel with
  | zero =>
    intro i channels h
    rw [attributesLoop,if_neg (by omega)]
    rfl
  | succ fuel ih =>
    intro i channels h
    rw [attributesLoop]
    split
    · rw [value_bind]
      split
      · exact ih _ (by omega)
      split
      · rfl
      rw [value_bind]
      split
      · rfl
      split
      · rw [value_bind]
        split
        · rfl
        · exact ih _ (by omega)
      · exact ih _ (by omega)
    · rfl

/-- An update parses: there is a router id, a next hop, and room behind the prefix. -/
def reachesAttributes (R : Receiver) (neighbour : Address) (len parsedLen ae : ℕ) (s : Parser) :
    Bool :=
  s.haveRouterId && decide (ae≠0) && (s.nextHop ae neighbour).isSome && (ae≠1 || R.ipv4) &&
    !R.faraway && decide (parsedLen<len)

theorem reachesAttributes_iff {len parsedLen ae : ℕ} :
    reachesAttributes R neighbour len parsedLen ae s=true ↔
      s.haveRouterId=true ∧ ae≠0 ∧ (s.nextHop ae neighbour).isSome=true ∧
        ¬(ae=1 ∧ R.ipv4=false) ∧ R.faraway=false ∧ parsedLen<len := by
  rw [reachesAttributes]
  simp only [Bool.and_eq_true,decide_eq_true_iff,Bool.or_eq_true,Bool.not_eq_true',and_assoc]
  refine and_congr_right' (and_congr_right' (and_congr_right' (and_congr_left' ?_)))
  cases R.ipv4 <;> simp

/-- The number of bytes of its attributes that an update looks at. -/
def updateAttributesRead (mem : Memory) (R : Receiver) (neighbour : Address)
    (message len parsedLen ae : ℕ) (s : Parser) : ℕ :=
  if reachesAttributes R neighbour len parsedLen ae s then
    attributesRead mem (message+2+parsedLen) (len-parsedLen) (len-parsedLen) 0
  else 0

theorem below_updateFound_iff {len parsedLen ae plen interval seqno metric : ℕ} {a : Address}
    (h : message+2+parsedLen≤n) :
    Within (updateFound R neighbour message len parsedLen ae plen interval seqno metric a s) mem 0 n ↔
      message+2+parsedLen + updateAttributesRead mem R neighbour message len parsedLen ae s≤n := by
  have hpure : ∀ {α : Type} (x : α), ¬reachesAttributes R neighbour len parsedLen ae s=true →
      (Within (pure x : Reading α) mem 0 n ↔ message+2+parsedLen +
        updateAttributesRead mem R neighbour message len parsedLen ae s≤n) := fun x hno => by
    rw [below_pure_iff,updateAttributesRead,if_neg hno]
    simpa using h
  rw [updateFound]
  split
  · rename_i hid
    refine hpure _ fun hreach => ?_
    have hhave := (reachesAttributes_iff.mp hreach).1
    rw [hhave] at hid
    exact Bool.false_ne_true hid.1
  rename_i hid
  split
  · rename_i hae
    have hno : ¬reachesAttributes R neighbour len parsedLen ae s=true :=
      fun hreach => (reachesAttributes_iff.mp hreach).2.1 hae
    split <;> exact hpure _ hno
  rename_i hae
  have hhave : s.haveRouterId=true := by
    by_contra hno
    exact hid ⟨by simpa using hno,hae⟩
  split
  · rename_i hnh
    refine hpure _ fun hreach => ?_
    have hsome := (reachesAttributes_iff.mp hreach).2.2.1
    rw [hnh] at hsome
    cases hsome
  rename_i nh hnh
  split
  · rename_i hv4
    refine hpure _ fun hreach => (reachesAttributes_iff.mp hreach).2.2.2.1 ?_
    exact ⟨hv4.1,by simpa using hv4.2⟩
  rename_i hv4
  rw [within_bind_iff,below_pure_iff,and_true,updateChannels]
  split
  · rename_i hfar
    refine hpure _ fun hreach => ?_
    have hnear := (reachesAttributes_iff.mp hreach).2.2.2.2.1
    rw [hfar] at hnear
    cases hnear
  rename_i hfar
  dsimp only
  split
  · rename_i hlen
    have hreach := reachesAttributes_iff.mpr ⟨hhave,hae,by rw [hnh]; rfl,
        fun hno => hv4 ⟨hno.1,by rw [hno.2]; rfl⟩,by simpa using hfar,hlen⟩
    rw [updateAttributesRead,if_pos hreach,parseRouteAttributes,below_attributesLoop_iff h]
  rename_i hlen
  exact hpure _ fun hreach => hlen (reachesAttributes_iff.mp hreach).2.2.2.2.2

theorem updateAttributesRead_noteUse (R : Receiver) (neighbour : Address)
    (message len parsedLen ae : ℕ) (flags : Byte) (a : Address) (s : Parser) (used : Bool) :
    updateAttributesRead mem R neighbour message len parsedLen ae
        ((s.noteUse used ae).takePrefix ae flags a) =
      updateAttributesRead mem R neighbour message len parsedLen ae (s.takePrefix ae flags a) := by
  have hreach : reachesAttributes R neighbour len parsedLen ae
      ((s.noteUse used ae).takePrefix ae flags a) =
      reachesAttributes R neighbour len parsedLen ae (s.takePrefix ae flags a) := by
    unfold takePrefix takeId takeDefault noteUse
    cases flag flags 7 <;> cases flag flags 6 <;> by_cases h : ae=1 <;>
      simp [h,reachesAttributes,nextHop]
  rw [updateAttributesRead,updateAttributesRead,hreach]

/-- The number of bytes of an update that are looked at. -/
def updateRead (mem : Memory) (R : Receiver) (neighbour : Address) (message len : ℕ)
    (s : Parser) : ℕ :=
  if len<2 then 2
  else if len<10 then 4
  else
    let ae := mem (message+2)
    let flags := mem (message+3)
    let decoded :=
      (decodeUpdate message len s ae flags (mem (message+4)) (mem (message+5))).value mem
    if decoded.ret<0 then 12
    else
      let parsedLen := 10+decoded.ret.toNat
      2+parsedLen+updateAttributesRead mem R neighbour message len parsedLen ae.toNat
        (s.takePrefix ae.toNat flags decoded.pfx)

theorem below_decodeUpdate_iff {ae flags plen omitted : Byte} (h : message+12≤n) :
    Within (decodeUpdate message len s ae flags plen omitted) mem 0 n ↔ message+12 +
        ((decodeUpdate message len s ae flags plen omitted).value mem).ret.toNat≤n := by
  rw [decodeUpdate]
  split
  · rw [below_networkPrefix_iff,prefixRead_eq mem _ _ _ (message+12)]
    omega
  rw [below_pure_iff]
  simpa [malformed] using h

theorem below_parseUpdate_iff (h : message+2≤n) :
    Within (parseUpdate R neighbour message len s) mem 0 n ↔
      message+updateRead mem R neighbour message len s≤n := by
  rw [parseUpdate,updateRead]
  by_cases h2 : len<2
  · rw [if_pos (by omega),if_pos h2,if_pos h2,below_pure_iff]
    simpa using h
  by_cases h10 : len<10
  · rw [if_pos h10,if_neg h2,if_neg h2,if_pos h10,within_bind_iff,below_byte_iff,
      below_pure_iff,and_true]
    omega
  rw [if_neg h10,if_neg h2,if_neg h10]
  simp only [within_bind_iff,below_byte_iff,below_u16_iff,value_byte]
  by_cases h12 : message+12≤n
  · rw [below_decodeUpdate_iff h12]
    generalize hdecoded : (decodeUpdate message len s (mem (message+2)) (mem (message+3))
      (mem (message+4)) (mem (message+5))).value mem=decoded
    by_cases hret : decoded.ret<0
    · rw [if_pos hret,if_pos hret,below_pure_iff,Int.toNat_of_nonpos hret.le,and_true]
      omega
    rw [if_neg hret,if_neg hret]
    constructor
    · rintro ⟨-,-,-,-,-,-,-,hpfx,hfnd⟩
      rw [below_updateFound_iff (by omega),updateAttributesRead_noteUse] at hfnd
      omega
    · intro hread
      refine ⟨by omega,by omega,by omega,by omega,by omega,by omega,by omega,by omega,?_⟩
      rw [below_updateFound_iff (by omega),updateAttributesRead_noteUse]
      omega
  · constructor
    · intro hread
      omega
    · intro hread
      split at hread <;> omega

/-- The number of bytes of a message that are looked at, from its type on. -/
def messageRead (mem : Memory) (R : Receiver) (neighbour : Address) (message type len : ℕ)
    (s : Parser) : ℕ :=
  let ae := (mem (message+2)).toNat
  let plen := (mem (message+3)).toNat
  if type=2 ∨ type=4 then (if len<6 then 2 else 8)
  else if type=5 then (if len<6 then 2 else 8+prefixRead ae (-1) 0 none (len-6))
  else if type=6 then (if len<10 then 2 else 12)
  else if type=7 then
    if len<2 then 2
    else if prefixRead ae (-1) 0 none (len-2)=0 then 3
    else 4+prefixRead ae (-1) 0 none (len-2)
  else if type=8 then updateRead mem R neighbour message len s
  else if type=9 then (if len<2 then 2 else 4+prefixRead ae plen 0 none (len-2))
  else if type=10 then
    if len<14 then 2
    else if ((networkPrefix ae plen 0 (message+16) none (len-14)).value mem).ret<0 then 6
    else 16+prefixRead ae plen 0 none (len-14)
  else 2

variable {R : Receiver} {neighbour : Address} {message type len : ℕ} {s : Parser}

theorem below_parseAckReq_iff (h : message+2≤n) : Within (parseAckReq message len s) mem 0 n ↔
      message+messageRead mem R neighbour message 2 len s≤n := by
  rw [parseAckReq,messageRead]
  simp only [true_or,if_true]
  split
  · rw [below_pure_iff]
    simpa using h
  simp only [within_bind_iff,below_u16_iff,below_pure_iff,and_true]
  omega

theorem below_parseHello_iff (h : message+2≤n) : Within (parseHello message len s) mem 0 n ↔
      message+messageRead mem R neighbour message 4 len s≤n := by
  rw [parseHello,messageRead]
  simp only [or_true,if_true]
  split
  · rw [below_pure_iff]
    simpa using h
  simp only [within_bind_iff,below_u16_iff,below_pure_iff,and_true]
  omega

theorem within_pures {p q : Prop} [Decidable p] [Decidable q] {a b c : α} :
    Within (if p then pure a else if q then pure b else pure c : Reading α) mem 0 n := by
  split
  · exact within_pure a
  split
  · exact within_pure b
  · exact within_pure c

section

variable (h : message+2≤n)
include h

theorem below_parseIhu_iff : Within (parseIhu R message len s) mem 0 n ↔
      message+messageRead mem R neighbour message 5 len s≤n := by
  rw [parseIhu,messageRead]
  simp only [Nat.reduceEqDiff,or_self,if_false,if_true]
  split
  · rw [below_pure_iff]
    simpa using h
  simp only [within_bind_iff,below_byte_iff,below_u16_iff,value_byte,networkAddress,
    below_networkPrefix_iff]
  constructor
  · rintro ⟨-,h8,-,hpfx,-⟩
    omega
  · intro hread
    exact ⟨by omega,by omega,by omega,by omega,within_pures⟩

theorem below_parseRouterId_iff : Within (parseRouterId message len s) mem 0 n ↔
      message+messageRead mem R neighbour message 6 len s≤n := by
  rw [parseRouterId,messageRead]
  simp only [Nat.reduceEqDiff,or_self,if_false,if_true]
  split
  · rw [below_pure_iff]
    simpa using h
  rw [within_bind_iff,below_bytes_iff,below_pure_iff,and_true]
  omega

theorem below_parseNh_iff : Within (parseNh message len s) mem 0 n ↔
      message+messageRead mem R neighbour message 7 len s≤n := by
  rw [parseNh,messageRead]
  simp only [Nat.reduceEqDiff,or_self,if_false,if_true]
  split
  · rw [below_pure_iff]
    simpa using h
  simp only [within_bind_iff,below_byte_iff,value_byte,networkAddress,below_networkPrefix_iff]
  constructor
  · rintro ⟨hae,hpfx,-⟩
    split <;> omega
  · intro hread
    refine ⟨?_,?_,within_pures⟩
    · split at hread <;> omega
    · split at hread <;> omega

theorem below_parseRequest_iff : Within (parseRequest message len s) mem 0 n ↔
      message+messageRead mem R neighbour message 9 len s≤n := by
  rw [parseRequest,messageRead]
  simp only [Nat.reduceEqDiff,or_self,if_false,if_true]
  split
  · rw [below_pure_iff]
    simpa using h
  simp only [within_bind_iff,below_byte_iff,value_byte,below_networkPrefix_iff]
  constructor
  · rintro ⟨-,hplen,hpfx,-⟩
    omega
  · intro hread
    exact ⟨by omega,by omega,by omega,within_pures⟩

theorem below_parseMhRequest_iff : Within (parseMhRequest message len s) mem 0 n ↔
      message+messageRead mem R neighbour message 10 len s≤n := by
  rw [parseMhRequest,messageRead]
  simp only [Nat.reduceEqDiff,or_self,if_false,if_true]
  split
  · rw [below_pure_iff]
    simpa using h
  simp only [within_bind_iff,below_byte_iff,below_u16_iff,value_byte,below_networkPrefix_iff]
  split
  · rename_i hret
    rw [prefixRead_eq mem _ _ _ (message+16),Int.toNat_of_nonpos hret.le,below_pure_iff,and_true]
    omega
  simp only [within_bind_iff,below_byte_iff,below_bytes_iff,below_pure_iff,and_true]
  omega

theorem below_parseMessage_iff :
    Within (parseMessage R neighbour message type len s) mem 0 n ↔
      message+messageRead mem R neighbour message type len s≤n := by
  rw [parseMessage]
  split
  · rename_i ht
    rw [below_map_iff,ht,below_parseAckReq_iff h]
  rename_i h2
  split
  · rename_i ht
    rw [below_map_iff,ht,below_parseHello_iff h]
  rename_i h4
  split
  · rename_i ht
    rw [below_map_iff,ht,below_parseIhu_iff h]
  rename_i h5
  split
  · rename_i ht
    rw [below_map_iff,ht,below_parseRouterId_iff h]
  rename_i h6
  split
  · rename_i ht
    rw [below_map_iff,ht,below_parseNh_iff h]
  rename_i h7
  split
  · rename_i ht
    rw [below_parseUpdate_iff h,ht,messageRead]
    simp only [Nat.reduceEqDiff,or_self,if_false,if_true]
  rename_i h8
  split
  · rename_i ht
    rw [below_map_iff,ht,below_parseRequest_iff h]
  rename_i h9
  split
  · rename_i ht
    rw [below_map_iff,ht,below_parseMhRequest_iff h]
  rename_i h10
  rw [below_pure_iff,messageRead]
  simp only [h2,h4,h5,h6,h7,h8,h9,h10,or_self,if_false]
  simpa using h

end

theorem two_le_messageRead : 2 ≤ messageRead mem R neighbour message type len s := by
  unfold messageRead
  dsimp only
  split
  · split <;> omega
  split
  · split <;> omega
  split
  · split <;> omega
  split
  · split
    · omega
    · split <;> omega
  split
  · rw [updateRead]
    split
    · omega
    split
    · omega
    dsimp only
    split <;> omega
  split
  · split <;> omega
  split
  · split
    · omega
    · split <;> omega
  · omega

/-- The number of bytes of the message at an offset of the body that are looked at. -/
def turnRead (mem : Memory) (R : Receiver) (neighbour : Address) (bodylen i : ℕ) (s : Parser) : ℕ :=
  let len := (mem (4+i+1)).toNat
  if mem (4+i)=0 then 1
  else if i+len > bodylen then 2
  else messageRead mem R neighbour (4+i) (mem (4+i)).toNat len s

theorem below_turn_iff {i : ℕ} (hi : i<bodylen) :
    Within (turn R neighbour bodylen i s) mem 0 n ↔ 4+i+turnRead mem R neighbour bodylen i s≤n := by
  rw [turn,turnRead,within_bind_iff,below_byte_iff,value_byte]
  split
  · rw [below_pure_iff,and_true]
    omega
  rw [if_neg (by omega),within_bind_iff,below_byte_iff,value_byte]
  split
  · rw [below_pure_iff,and_true]
    omega
  rw [within_bind_iff]
  by_cases h : 4+i+2≤n
  · rw [below_parseMessage_iff h]
    refine ⟨fun hread => hread.2.2.1,fun hread => ⟨by omega,by omega,hread,?_⟩⟩
    split <;> exact within_pure _
  have htwo : 2 ≤ messageRead mem R neighbour (4+i) (mem (4+i)).toNat
      (mem (4+i+1)).toNat s := two_le_messageRead
  constructor
  · rintro ⟨-,hlen,-⟩
    omega
  · intro hread
    omega

/-- A default prefix that may be used has been set. -/
structure Tracked (s : Parser) : Prop where
  v4 : s.haveV4Prefix=true → s.v4Set=true
  v6 : s.haveV6Prefix=true → s.v6Set=true

/-- An update that omits bytes is decoded with the unset default prefix of its family. -/
def misled (mem : Memory) (message len : ℕ) (s : Parser) : Bool :=
  let ae := (mem (message+2)).toNat
  let flags := mem (message+3)
  decide (10≤len) && looksAtDefault ae (mem (message+4)).toNat (mem (message+5)).toNat (len-10) &&
    ((ae=1 && decide (flags≠1) && s.haveV6Prefix && !s.v4Set) ||
      (ae=2 && decide (flags=1) && s.haveV4Prefix && !s.v6Set))

def OnlyCalls (s s' : Parser) : Prop := s' = {s with calls := s'.calls}

theorem OnlyCalls.tracked (h : OnlyCalls s s') (ht : Tracked s) : Tracked s' := by
  rw [OnlyCalls] at h
  rw [h]
  exact ⟨ht.v4,ht.v6⟩

theorem OnlyCalls.misused (h : OnlyCalls s s') : s'.misused=s.misused := by
  rw [OnlyCalls] at h
  rw [h]

theorem updateChannels_isSome (mem : Memory) (R : Receiver) (message len parsedLen metric : ℕ) :
    ((updateChannels R message len parsedLen metric).value mem).isSome=true := by
  rw [updateChannels]
  split
  · rfl
  dsimp only
  split
  · exact attributesLoop_ends _ _ (by omega)
  · rfl

/-- An update whose prefix is well formed changes nothing but the calls. -/
theorem updateFound_spec (mem : Memory) (R : Receiver) (neighbour : Address)
    (message len parsedLen ae plen interval seqno metric : ℕ) (a : Address) (s : Parser) :
    ∃ s', (updateFound R neighbour message len parsedLen ae plen interval seqno metric a s).value
      mem=some s' ∧ OnlyCalls s s' := by
  rw [updateFound]
  split
  · exact ⟨s,rfl,rfl⟩
  split
  · split
    · exact ⟨s,rfl,rfl⟩
    · exact ⟨s.call .retractNeighbourRoutes,rfl,rfl⟩
  split
  · exact ⟨s,rfl,rfl⟩
  split
  · exact ⟨s,rfl,rfl⟩
  obtain ⟨channels,hchannels⟩ := Option.isSome_iff_exists.mp
    (updateChannels_isSome mem R message len parsedLen metric)
  rw [value_bind,hchannels]
  exact ⟨_,rfl,rfl⟩

theorem takePrefix_tracked (ht : Tracked s) (ae : ℕ) (flags : Byte) (a : Address) :
    Tracked (s.takePrefix ae flags a) ∧ (s.takePrefix ae flags a).misused=s.misused := by
  have hdefault : Tracked (s.takeDefault ae flags a) ∧
      (s.takeDefault ae flags a).misused=s.misused := by
    rw [takeDefault]
    split
    · split
      · exact ⟨⟨fun _ => rfl,ht.v6⟩,rfl⟩
      · exact ⟨⟨ht.v4,fun _ => rfl⟩,rfl⟩
    · exact ⟨ht,rfl⟩
  rw [takePrefix,takeId]
  split
  · exact ⟨⟨hdefault.1.v4,hdefault.1.v6⟩,hdefault.2⟩
  · exact hdefault

/-- Exactly a misled update uses a default prefix that was not set. -/
theorem noteUse_misused (mem : Memory) (message : ℕ) (ht : Tracked s) (h10 : ¬len<10) :
    (s.noteUse ((decodeUpdate message len s (mem (message+2)) (mem (message+3))
        (mem (message+4)) (mem (message+5))).value mem).usesDefault
      (mem (message+2)).toNat).misused=(s.misused || misled mem message len s) := by
  rw [noteUse,decodeUpdate,misled]
  congr 1
  rw [decide_eq_true (not_lt.mp h10),Bool.true_and]
  split
  · rename_i hmay
    rw [usesDefault_eq]
    cases hlooks : looksAtDefault (mem (message+2)).toNat (mem (message+4)).toNat
        (mem (message+5)).toNat (len-10) with
    | false => rfl
    | true =>
      have homitted : (mem (message+5)).toNat≠0 := by
        rw [looksAtDefault] at hlooks
        simp only [Bool.and_eq_true,decide_eq_true_iff] at hlooks
        exact hlooks.1.2.1
      have hae : (mem (message+2)).toNat=1 ∨ (mem (message+2)).toNat=2 := by
        rw [looksAtDefault] at hlooks
        simp only [Bool.and_eq_true,Bool.or_eq_true,decide_eq_true_iff] at hlooks
        exact hlooks.2.imp And.left And.left
      rw [mayDecode,decide_eq_false homitted,Bool.false_or] at hmay
      rw [Bool.true_and,Bool.true_and,defaultSet]
      have hv4 := ht.v4
      have hv6 := ht.v6
      rcases hae with hae|hae
      · by_cases hflags : mem (message+3)=1
        · rw [if_pos hflags] at hmay
          simp [hae,hflags,hv4 hmay]
        rw [if_neg hflags] at hmay
        have hflags' : ¬mem (message+3)=1#8 := hflags
        simp [hae,hflags',hmay]
      by_cases hflags : mem (message+3)=1
      · rw [if_pos hflags] at hmay
        simp [hae,hflags,hmay]
      rw [if_neg hflags] at hmay
      simp [hae,hv6 hmay]
  · rename_i hmay
    cases hlooks : looksAtDefault (mem (message+2)).toNat (mem (message+4)).toNat
        (mem (message+5)).toNat (len-10) with
    | false => rfl
    | true =>
      have hmay' : ¬(if mem (message+3)=1 then s.haveV4Prefix else s.haveV6Prefix)=true :=
        fun h => hmay (by rw [mayDecode,h,Bool.or_true])
      by_cases hflags : mem (message+3)=1
      · rw [if_pos hflags] at hmay'
        simp [malformed,hflags,hmay']
      rw [if_neg hflags] at hmay'
      have hflags' : ¬mem (message+3)=1#8 := hflags
      simp [malformed,hflags',hmay']

theorem parseUpdate_value (mem : Memory) (R : Receiver) (neighbour : Address) (message : ℕ)
    (s : Parser) (h10 : ¬len<10) :
    (parseUpdate R neighbour message len s).value mem =
      let ae := mem (message+2)
      let flags := mem (message+3)
      let plen := mem (message+4)
      let decoded := (decodeUpdate message len s ae flags plen (mem (message+5))).value mem
      let s := s.noteUse decoded.usesDefault ae.toNat
      if decoded.ret<0 then some (if flag flags 7 then s.forgetPrefixes else s)
      else (updateFound R neighbour message len (10+decoded.ret.toNat) ae.toNat
          ((plen.toNat+if ae.toNat=1 then 96 else 0)%256) ((u16 (message+6)).value mem)
          ((u16 (message+8)).value mem) ((u16 (message+10)).value mem) decoded.pfx
          (s.takePrefix ae.toNat flags decoded.pfx)).value mem := by
  rw [parseUpdate,if_neg h10]
  simp only [value_bind,value_byte]
  split <;> rfl

theorem parseUpdate_spec (mem : Memory) (R : Receiver) (neighbour : Address) (message len : ℕ)
    (ht : Tracked s) :
    ∃ s', (parseUpdate R neighbour message len s).value mem=some s' ∧ Tracked s' ∧
      s'.misused=(s.misused || misled mem message len s) := by
  by_cases h10 : len<10
  · have hno : misled mem message len s=false := by
      rw [misled,decide_eq_false (by omega)]
      rfl
    rw [parseUpdate,if_pos h10,hno,Bool.or_false]
    have hforget : Tracked s.forgetPrefixes := ⟨nofun,nofun⟩
    split
    · exact ⟨_,rfl,hforget,rfl⟩
    rw [value_bind]
    split
    · exact ⟨_,rfl,hforget,rfl⟩
    · exact ⟨_,rfl,ht,rfl⟩
  · rw [parseUpdate_value mem R neighbour message s h10]
    dsimp only
    have hmisused := noteUse_misused mem message ht h10
    generalize (decodeUpdate message len s (mem (message+2)) (mem (message+3))
      (mem (message+4)) (mem (message+5))).value mem=decoded at hmisused ⊢
    have htracked : Tracked (s.noteUse decoded.usesDefault (mem (message+2)).toNat) := ⟨ht.v4,ht.v6⟩
    split
    · by_cases hflag : flag (mem (message+3)) 7=true
      · rw [if_pos hflag]
        exact ⟨_,rfl,⟨nofun,nofun⟩,hmisused⟩
      rw [if_neg hflag]
      exact ⟨_,rfl,htracked,hmisused⟩
    obtain ⟨htake,hsame⟩ := takePrefix_tracked htracked (mem (message+2)).toNat
      (mem (message+3)) decoded.pfx
    obtain ⟨s',hs',honly⟩ := updateFound_spec mem R neighbour message len
      (10+decoded.ret.toNat) (mem (message+2)).toNat
      (((mem (message+4)).toNat+if (mem (message+2)).toNat=1 then 96 else 0)%256)
      ((u16 (message+6)).value mem) ((u16 (message+8)).value mem)
      ((u16 (message+10)).value mem) decoded.pfx
      ((s.noteUse decoded.usesDefault (mem (message+2)).toNat).takePrefix
        (mem (message+2)).toNat (mem (message+3)) decoded.pfx)
    exact ⟨s',hs',honly.tracked htake,honly.misused.trans (hsame.trans hmisused)⟩

/-- What a message leaves of the default prefixes. -/
theorem parseMessage_spec (mem : Memory) (R : Receiver) (neighbour : Address)
    (message type len : ℕ) (ht : Tracked s) :
    ∃ s', (parseMessage R neighbour message type len s).value mem=some s' ∧ Tracked s' ∧
      s'.misused=(s.misused || (type=8 && misled mem message len s)) := by
  have hkept : ∀ r : Reading Parser, type≠8 →
      Tracked (r.value mem) ∧ (r.value mem).misused=s.misused →
      ∃ s', (some <$> r : Reading (Option Parser)).value mem=some s' ∧ Tracked s' ∧
        s'.misused=(s.misused || (type=8 && misled mem message len s)) := by
    intro r h8 h
    refine ⟨_,rfl,h.1,?_⟩
    rw [decide_eq_false h8,Bool.false_and,Bool.or_false]
    exact h.2
  have hcall : ∀ c, Tracked (s.call c) ∧ (s.call c).misused=s.misused :=
    fun c => ⟨⟨ht.v4,ht.v6⟩,rfl⟩
  rw [parseMessage]
  split
  · refine hkept _ (by omega) ?_
    rw [parseAckReq]
    split
    · exact ⟨ht,rfl⟩
    · exact hcall _
  split
  · refine hkept _ (by omega) ?_
    rw [parseHello]
    split
    · exact ⟨ht,rfl⟩
    · exact hcall _
  split
  · refine hkept _ (by omega) ?_
    rw [parseIhu]
    split
    · exact ⟨ht,rfl⟩
    simp only [value_bind]
    split
    · exact ⟨ht,rfl⟩
    split
    · exact hcall _
    · exact ⟨ht,rfl⟩
  split
  · refine hkept _ (by omega) ?_
    rw [parseRouterId]
    split <;> exact ⟨⟨ht.v4,ht.v6⟩,rfl⟩
  split
  · refine hkept _ (by omega) ?_
    rw [parseNh]
    split
    · exact ⟨⟨ht.v4,ht.v6⟩,rfl⟩
    simp only [value_bind]
    split
    · exact ⟨⟨ht.v4,ht.v6⟩,rfl⟩
    split <;> exact ⟨⟨ht.v4,ht.v6⟩,rfl⟩
  split
  · rename_i h8
    obtain ⟨s',hs',htracked,hmisused⟩ := parseUpdate_spec mem R neighbour message len ht
    refine ⟨s',hs',htracked,?_⟩
    rw [decide_eq_true h8,Bool.true_and]
    exact hmisused
  split
  · refine hkept _ (by omega) ?_
    rw [parseRequest]
    split
    · exact ⟨ht,rfl⟩
    simp only [value_bind]
    split
    · exact ⟨ht,rfl⟩
    split <;> exact hcall _
  split
  · refine hkept _ (by omega) ?_
    rw [parseMhRequest]
    split
    · exact ⟨ht,rfl⟩
    simp only [value_bind]
    split
    · exact ⟨ht,rfl⟩
    · exact hcall _
  rename_i h8 _ _
  refine ⟨s,rfl,ht,?_⟩
  rw [decide_eq_false h8,Bool.false_and,Bool.or_false]

/-- The message at an offset of the body is a misled update. -/
def turnMisled (mem : Memory) (bodylen i : ℕ) (s : Parser) : Bool :=
  let len := (mem (4+i+1)).toNat
  decide (mem (4+i)=8 ∧ i+len≤bodylen) && misled mem (4+i) len s

/-- What a turn ends in: the loop is left, or goes on behind the message. -/
theorem turn_spec (mem : Memory) (R : Receiver) (neighbour : Address) {i : ℕ} (hi : i<bodylen)
    (ht : Tracked s) :
    ((turn R neighbour bodylen i s).value mem=.stop ∧ turnMisled mem bodylen i s=false) ∨
    ∃ i' s', (turn R neighbour bodylen i s).value mem=.next i' s' ∧ i < i' ∧ Tracked s' ∧
      s'.misused=(s.misused || turnMisled mem bodylen i s) := by
  rw [turn,turnMisled,value_bind,value_byte]
  by_cases h0 : mem (4+i)=0
  · rw [if_pos h0]
    refine .inr ⟨i+1,s,rfl,by omega,ht,?_⟩
    rw [h0]
    simp
  rw [if_neg h0,if_neg (by omega),value_bind,value_byte]
  by_cases hlen : i+(mem (4+i+1)).toNat > bodylen
  · rw [if_pos hlen]
    refine .inl ⟨rfl,?_⟩
    rw [decide_eq_false (fun h => absurd h.2 (by omega)),Bool.false_and]
  rw [if_neg hlen,value_bind]
  obtain ⟨s',hs',htracked,hmisused⟩ := parseMessage_spec mem R neighbour (4+i)
    (mem (4+i)).toNat (mem (4+i+1)).toNat ht
  rw [hs']
  refine .inr ⟨_,s',rfl,by omega,htracked,hmisused.trans ?_⟩
  congr 2
  rw [decide_eq_decide]
  refine ⟨fun h => ⟨BitVec.eq_of_toNat_eq h,by omega⟩,fun h => ?_⟩
  rw [h.1]
  rfl

/-- From an offset on, every message met lies in the packet and none is a misled update. -/
def LoopFits (mem : Memory) (R : Receiver) (neighbour : Address) (packetlen bodylen : ℕ) :
    ℕ→ℕ→Parser→Prop
  | 0, _, _ => True
  | fuel+1, i, s =>
    i<bodylen → (4+i+turnRead mem R neighbour bodylen i s≤packetlen ∧
        turnMisled mem bodylen i s=false) ∧
      ∀ i' s', (turn R neighbour bodylen i s).value mem=.next i' s' →
        LoopFits mem R neighbour packetlen bodylen fuel i' s'

theorem parseLoop_ends (mem : Memory) (R : Receiver) (neighbour : Address) (bodylen : ℕ)
    (fuel : ℕ) : ∀ {i s}, Tracked s → bodylen≤fuel+i →
      ((parseLoop R neighbour bodylen fuel i s).value mem).isSome=true := by
  induction fuel with
  | zero =>
    intro i s _ h
    rw [parseLoop,if_neg (by omega)]
    rfl
  | succ fuel ih =>
    intro i s ht h
    rw [parseLoop]
    split
    · rename_i hi
      rw [value_bind]
      rcases turn_spec mem R neighbour hi ht with ⟨hstop,-⟩|⟨i',s',hnext,hlt,ht',-⟩
      · rw [hstop]
        rfl
      rw [hnext]
      exact ih ht' (by omega)
    · rfl

/-- The loop reads inside and uses only default prefixes that were set exactly when it fits. -/
theorem parseLoop_safe_iff (mem : Memory) (R : Receiver) (neighbour : Address)
    (packetlen bodylen : ℕ) (fuel : ℕ) : ∀ {i s}, Tracked s → bodylen≤fuel+i →
      (Within (parseLoop R neighbour bodylen fuel i s) mem 0 packetlen ∧
        (∀ t, (parseLoop R neighbour bodylen fuel i s).value mem=some t → t.misused=false) ↔
      s.misused=false ∧ LoopFits mem R neighbour packetlen bodylen fuel i s) := by
  induction fuel with
  | zero =>
    intro i s _ h
    rw [parseLoop,if_neg (by omega),below_pure_iff,LoopFits]
    refine ⟨fun hsafe => ⟨hsafe.2 s rfl,trivial⟩,fun hfits => ⟨trivial,fun t heq => ?_⟩⟩
    rw [←Option.some.inj heq]
    exact hfits.1
  | succ fuel ih =>
    intro i s ht h
    rw [parseLoop,LoopFits]
    by_cases hi : i<bodylen
    · rw [if_pos hi,within_bind_iff,below_turn_iff hi,value_bind]
      rcases turn_spec mem R neighbour hi ht with ⟨hstop,hmis⟩|⟨i',s',hnext,hlt,ht',hmis⟩
      · rw [hstop]
        constructor
        · rintro ⟨⟨hread,-⟩,hmisused⟩
          exact ⟨hmisused s rfl,fun _ => ⟨⟨hread,hmis⟩,fun i' s' heq => by cases heq⟩⟩
        · rintro ⟨hmisused,hfits⟩
          refine ⟨⟨(hfits hi).1.1,within_pure _⟩,fun t heq => ?_⟩
          rw [←Option.some.inj heq]
          exact hmisused
      rw [hnext]
      have hih := ih ht' (show bodylen≤fuel+i' by omega)
      constructor
      · rintro ⟨⟨hread,hloop⟩,hmisused⟩
        obtain ⟨hnot,hfits⟩ := hih.mp ⟨hloop,hmisused⟩
        rw [hmis,Bool.or_eq_false_iff] at hnot
        refine ⟨hnot.1,fun _ => ⟨⟨hread,hnot.2⟩,fun i'' s'' heq => ?_⟩⟩
        cases heq
        exact hfits
      · rintro ⟨hmisused,hfits⟩
        obtain ⟨⟨hread,hnot⟩,hrs⟩ := hfits hi
        have hsafe := hih.mpr ⟨by rw [hmis,hmisused,hnot]; rfl,hrs i' s' rfl⟩
        exact ⟨⟨hread,hsafe.1⟩,hsafe.2⟩
    · rw [if_neg hi,below_pure_iff]
      refine ⟨fun hsafe => ⟨hsafe.2 s rfl,fun hlt => absurd hlt hi⟩,
        fun hfits => ⟨trivial,fun t heq => ?_⟩⟩
      rw [←Option.some.inj heq]
      exact hfits.1

/-- What `parse_packet` needs: header and messages are there, and no update is misled. -/
def PacketFits (mem : Memory) (R : Receiver) (k : Stack) (packetlen : ℕ) : Prop :=
  R.fromLinklocal=true → 1≤packetlen ∧ (mem 0=42 → 2≤packetlen ∧ (mem 1=2 → ∀ neighbour∈R.neighbour,
      4≤packetlen ∧
        let bodylen := min ((mem 2).toNat*256+(mem 3).toNat) (packetlen-4)
        LoopFits mem R neighbour packetlen bodylen bodylen 0 (Parser.start k)))

theorem start_tracked (k : Stack) : Tracked (Parser.start k) :=
  ⟨nofun,nofun⟩

theorem bodylen_eq {packetlen : ℕ} (h : 4≤packetlen) :
    (if bodylen+4 > packetlen then packetlen-4 else bodylen)=min bodylen (packetlen-4) := by
  split <;> omega

theorem parsePacket_ends (mem : Memory) (R : Receiver) (k : Stack) (packetlen : ℕ) :
    ((parsePacket R k packetlen).value mem).isSome=true := by
  rw [parsePacket]
  split
  · rfl
  rw [value_bind]
  split
  · rfl
  rw [value_bind]
  split
  · rfl
  cases R.neighbour with
  | none => rfl
  | some neighbour =>
    rw [value_bind]
    exact parseLoop_ends mem R neighbour _ _ (start_tracked k) (by omega)

/-- `parse_packet` reads only inside the packet and uses only default prefixes it has set. -/
def ParsesSafely (mem : Memory) (R : Receiver) (k : Stack) (packetlen : ℕ) : Prop :=
  Within (parsePacket R k packetlen) mem 0 packetlen ∧
    ∀ t, (parsePacket R k packetlen).value mem=some t → t.misused=false

theorem parsesSafely_iff (mem : Memory) (R : Receiver) (k : Stack) (packetlen : ℕ) :
    ParsesSafely mem R k packetlen ↔ PacketFits mem R k packetlen := by
  have hstart : ∀ t, (pure (some (start k)) : Reading (Option Parser)).value mem=some t →
      t.misused=false := by
    intro t heq
    rw [←Option.some.inj heq]
    rfl
  rw [ParsesSafely,PacketFits,parsePacket]
  by_cases hfrom : R.fromLinklocal=true
  · rw [hfrom,if_neg (by decide),within_bind_iff,below_byte_iff,value_bind,value_byte]
    by_cases hmagic : mem 0=42
    · rw [if_neg (not_not.mpr hmagic),within_bind_iff,below_byte_iff,value_bind,value_byte]
      by_cases hvn : mem 1=2
      · rw [if_neg (not_not.mpr hvn)]
        cases hneighbour : R.neighbour with
        | none =>
          rw [below_pure_iff]
          exact ⟨fun hsafe _ => ⟨hsafe.1.1,fun _ => ⟨hsafe.1.2.1,
            fun _ neighbour hmem => absurd hmem (Option.not_mem_none neighbour)⟩⟩,
            fun hfits => ⟨⟨(hfits rfl).1,((hfits rfl).2 hmagic).1,trivial⟩,hstart⟩⟩
        | some neighbour =>
          rw [within_bind_iff,below_u16_iff,value_bind,value_u16]
          constructor
          · rintro ⟨⟨h0,h1,h2,hloop⟩,hmisused⟩ -
            refine ⟨h0,fun _ => ⟨h1,fun _ other hmem => ⟨h2,?_⟩⟩⟩
            cases hmem
            rw [bodylen_eq h2] at hloop hmisused
            exact ((parseLoop_safe_iff mem R neighbour packetlen _ _ (start_tracked k)
              (by omega)).mp ⟨hloop,hmisused⟩).2
          · intro hfits
            obtain ⟨h0,hrs⟩ := hfits rfl
            obtain ⟨h1,hrs⟩ := hrs hmagic
            obtain ⟨h2,hloop⟩ := hrs hvn neighbour rfl
            rw [bodylen_eq h2]
            have hsafe := (parseLoop_safe_iff mem R neighbour packetlen _ _ (start_tracked k)
              (by omega)).mpr ⟨rfl,hloop⟩
            exact ⟨⟨h0,h1,h2,hsafe.1⟩,hsafe.2⟩
      · rw [if_pos hvn,below_pure_iff]
        exact ⟨fun hsafe _ => ⟨hsafe.1.1,fun _ => ⟨hsafe.1.2.1,fun h => absurd h hvn⟩⟩,
          fun hfits => ⟨⟨(hfits rfl).1,((hfits rfl).2 hmagic).1,trivial⟩,hstart⟩⟩
    · rw [if_pos hmagic,below_pure_iff]
      exact ⟨fun hsafe _ => ⟨hsafe.1.1,fun h => absurd h hmagic⟩,
        fun hfits => ⟨⟨(hfits rfl).1,trivial⟩,hstart⟩⟩
  · have hnot : (!R.fromLinklocal)=true := by simpa using hfrom
    rw [if_pos hnot,below_pure_iff]
    exact ⟨fun _ h => absurd h hfrom,fun _ => ⟨trivial,hstart⟩⟩

end RoutePlatform.BabelPackets
