import RoutePlatform.ReadTrace

/-!
# Dynamic capabilities of `bgpd/bgp_packet.c`

`bgp_capability_msg_parse` copies four bytes behind every header, however many the capability has,
and goes round again at the same place where it ignores a multiprotocol capability. Debug output
is left out.
-/

namespace RoutePlatform.CapabilityMessages

open ReadTrace ReadTrace.Reading List

/-- What the parser asks of others. -/
inductive Call where
  /-- `bgp_notify_send` with a cease. -/
  | notifyCease
  | announceRoute (afi safi : ℕ)
  | clearRoute (afi safi : ℕ)
  | stop

/-- The peer, as far as its capabilities go. -/
structure Peer where
  overrideCapability : Bool
  afc : ℕ→ℕ→Bool
  afcRecv : ℕ→ℕ→Bool
  afcNego : ℕ→ℕ→Bool
  calls : List Call

/-- A table with one entry set. -/
def put (table : ℕ→ℕ→Bool) (afi safi : ℕ) (x : Bool) : ℕ→ℕ→Bool :=
  fun a s => if a=afi ∧ s=safi then x else table a s

namespace Peer

def call (peer : Peer) (c : Call) : Peer := {peer with calls := peer.calls++[c]}

def peerActiveNego (peer : Peer) : Bool :=
  peer.afcNego 1 1 || peer.afcNego 1 2 || peer.afcNego 1 4 || peer.afcNego 2 1 || peer.afcNego 2 2

def setMp (peer : Peer) (afi safi : ℕ) : Peer :=
  let peer := {peer with afcRecv := put peer.afcRecv afi safi true}
  if peer.afc afi safi then
    {peer with afcNego := put peer.afcNego afi safi true}.call (.announceRoute afi safi)
  else peer

def unsetMp (peer : Peer) (afi safi : ℕ) : Peer :=
  let peer := {peer with
    afcRecv := put peer.afcRecv afi safi false
    afcNego := put peer.afcNego afi safi false}
  if peer.peerActiveNego then peer.call (.clearRoute afi safi) else peer.call .stop

end Peer

/-- `bgp_afi_safi_valid_indices`: the index of the SAFI. -/
def bgpAfiSafiValidIndices (afi safi : ℕ) : Option ℕ :=
  if afi=1 ∨ afi=2 then
    if safi=128 ∨ safi=4 then some 4 else if safi=1 ∨ safi=2 then some safi else none
  else none

/-- The AFI and the SAFI of `struct capability_mp_data`. -/
def mpIndices (mpc : List Byte) : ℕ × ℕ :=
  ((mpc.getD 0 0).toNat*256+(mpc.getD 1 0).toNat,(mpc.getD 3 0).toNat)

/-- How a turn of the loop ends. -/
inductive Turn where
  | ret (answer : ℤ) (peer : Peer)
  | goOn (pnt : ℕ) (peer : Peer)

def turn (lim pnt : ℕ) (peer : Peer) : Reading Turn :=
  if pnt+3>lim then pure (.ret (-1) (peer.call .notifyCease))
  else do
    let action ← byte pnt
    if action≠0 ∧ action≠1 then pure (.ret (-1) (peer.call .notifyCease))
    else do
      let length ← byte (pnt+2)
      if pnt+length.toNat+3>lim then pure (.ret (-1) (peer.call .notifyCease))
      else do
        let mpc ← bytes (pnt+3) 4
        let code ← byte (pnt+1)
        if code=1 then
          let mp := mpIndices mpc
          if peer.overrideCapability then pure (.goOn pnt peer)
          else match bgpAfiSafiValidIndices mp.1 mp.2 with
            | none => pure (.goOn pnt peer)
            | some safi => pure (.goOn (pnt+length.toNat+3)
                (if action=0 then peer.setMp mp.1 safi else peer.unsetMp mp.1 safi))
        else pure (.goOn (pnt+length.toNat+3) peer)

/-- `bgp_capability_msg_parse` from a position on, for so many turns. -/
def bgpCapabilityMsgParse (lim : ℕ) : ℕ→ℕ→Peer→Reading (Option (ℤ × Peer))
  | 0, _, _ => pure none
  | fuel+1, pnt, peer =>
    if pnt<lim then do
      match ← turn lim pnt peer with
      | .ret answer peer => pure (some (answer,peer))
      | .goOn pnt peer => bgpCapabilityMsgParse lim fuel pnt peer
    else pure (some (0,peer))

section

variable (mem : Memory) (lim : ℕ)

/-- A capability at the position passes the checks of action and length. -/
def Headed (pnt : ℕ) : Prop := pnt+3≤lim ∧ (mem pnt=0 ∨ mem pnt=1) ∧ pnt+(mem (pnt+2)).toNat+3≤lim

/-- A multiprotocol capability that is ignored. -/
def Ignored (override : Bool) (pnt : ℕ) : Prop :=
  mem (pnt+1)=1 ∧ (override=true ∨
    bgpAfiSafiValidIndices (mpIndices ((bytes (pnt+3) 4).value mem)).1
      (mpIndices ((bytes (pnt+3) 4).value mem)).2=none)

/-- The positions of the capabilities, one behind the other. -/
inductive Visited : ℕ→Prop
  | start : Visited 0
  | next {pnt : ℕ} (h : Visited pnt) (hhead : Headed mem lim pnt) :
      Visited (pnt+(mem (pnt+2)).toNat+3)

/-- The loop ends, and whatever it has read so far lies before the end. -/
def Sound (pnt : ℕ) (peer : Peer) : Prop :=
  (∃ fuel, ((bgpCapabilityMsgParse lim fuel pnt peer).value mem).isSome) ∧
    ∀ fuel, Within (bgpCapabilityMsgParse lim fuel pnt peer) mem 0 lim

variable {mem lim} {pnt pnt' : ℕ} {peer peer' : Peer}

theorem turn_of_not_headed (h : ¬Headed mem lim pnt) : Within (turn lim pnt peer) mem 0 lim ∧
      ∃ answer peer', (turn lim pnt peer).value mem=.ret answer peer' := by
  unfold turn
  split
  · exact ⟨within_pure _,_,_,rfl⟩
  rw [within_bind_iff,below_byte_iff,value_bind,value_byte]
  split
  · exact ⟨⟨by omega,within_pure _⟩,_,_,rfl⟩
  rw [within_bind_iff,below_byte_iff,value_bind,value_byte]
  split
  · exact ⟨⟨by omega,by omega,within_pure _⟩,_,_,rfl⟩
  rename_i hroom haction hfits
  exact absurd ⟨by omega,by tauto,by omega⟩ h

/-- A turn with a proper header copies four bytes and stays or goes on. -/
theorem turn_of_headed (h : Headed mem lim pnt) :
    (Within (turn lim pnt peer) mem 0 lim ↔ pnt+7≤lim) ∧ (Ignored mem peer.overrideCapability pnt →
        (turn lim pnt peer).value mem=.goOn pnt peer) ∧
      (¬Ignored mem peer.overrideCapability pnt → ∃ peer',
        peer'.overrideCapability=peer.overrideCapability ∧
          (turn lim pnt peer).value mem=.goOn (pnt+(mem (pnt+2)).toNat+3) peer') := by
  obtain ⟨hroom,haction,hfits⟩ := h
  have hcopy : 4=0 ∨ pnt+3+4≤lim ↔ pnt+7≤lim := by omega
  unfold turn
  rw [if_neg (by omega)]
  rw [within_bind_iff,below_byte_iff,value_bind,value_byte]
  split
  · rename_i hbad
    exact absurd haction (by tauto)
  rw [within_bind_iff,below_byte_iff,value_bind,value_byte]
  split
  · omega
  rw [within_bind_iff,below_bytes_iff,value_bind,within_bind_iff,below_byte_iff,
    value_bind,value_byte,hcopy,and_iff_right (show pnt<lim by omega),
    and_iff_right (show pnt+2<lim by omega),and_iff_right (show pnt+1<lim by omega)]
  have hpure (t : Turn) : Within (pure t : Reading Turn) mem 0 lim := within_pure t
  split
  · rename_i hcode
    split
    · rename_i hover
      exact ⟨and_iff_left (hpure _),fun _ => rfl,fun hno => absurd ⟨hcode,.inl hover⟩ hno⟩
    rename_i hover
    dsimp only
    cases hvalid : bgpAfiSafiValidIndices (mpIndices ((bytes (pnt+3) 4).value mem)).1
        (mpIndices ((bytes (pnt+3) 4).value mem)).2 with
    | none => exact ⟨and_iff_left (hpure _),fun _ => rfl,fun hno => absurd ⟨hcode,.inr hvalid⟩ hno⟩
    | some safi =>
      refine ⟨and_iff_left (hpure _),fun hign => ?_,fun _ => ⟨_,?_,rfl⟩⟩
      · rcases hign.2 with hset|hnone
        · exact absurd hset hover
        · cases hnone.symm.trans hvalid
      unfold Peer.setMp Peer.unsetMp Peer.call
      dsimp only
      split_ifs <;> rfl
  · rename_i hcode
    exact ⟨and_iff_left (hpure _),fun hign => absurd hign.1 hcode,fun _ => ⟨peer,rfl,rfl⟩⟩

/-- A turn that goes on is followed by the loop at the new position. -/
theorem sound_goOn (hpnt : pnt<lim) (h : (turn lim pnt peer).value mem=.goOn pnt' peer') :
    Sound mem lim pnt peer ↔ Within (turn lim pnt peer) mem 0 lim ∧ Sound mem lim pnt' peer' := by
  have hval (fuel : ℕ) : (bgpCapabilityMsgParse lim (fuel+1) pnt peer).value mem =
      (bgpCapabilityMsgParse lim fuel pnt' peer').value mem := by
    rw [bgpCapabilityMsgParse,if_pos hpnt,value_bind,h]
  have hin (fuel : ℕ) : Within (bgpCapabilityMsgParse lim (fuel+1) pnt peer) mem 0 lim ↔
      Within (turn lim pnt peer) mem 0 lim ∧
        Within (bgpCapabilityMsgParse lim fuel pnt' peer') mem 0 lim := by
    rw [bgpCapabilityMsgParse,if_pos hpnt,within_bind_iff,h]
  constructor
  · rintro ⟨⟨fuel,hends⟩,hreads⟩
    cases fuel with
    | zero => cases hends
    | succ fuel =>
      rw [hval] at hends
      exact ⟨((hin 0).mp (hreads 1)).1,⟨fuel,hends⟩,
        fun fuel => ((hin fuel).mp (hreads (fuel+1))).2⟩
  · rintro ⟨hturn,⟨fuel,hends⟩,hreads⟩
    refine ⟨⟨fuel+1,by rwa [hval]⟩,fun fuel => ?_⟩
    cases fuel with
    | zero => exact within_pure _
    | succ fuel => exact (hin fuel).mpr ⟨hturn,hreads fuel⟩

theorem not_sound_of_stays (hpnt : pnt<lim) (h : (turn lim pnt peer).value mem=.goOn pnt peer) :
    ¬Sound mem lim pnt peer := by
  rintro ⟨⟨fuel,hends⟩,-⟩
  induction fuel with
  | zero => cases hends
  | succ fuel ih =>
    rw [bgpCapabilityMsgParse,if_pos hpnt,value_bind,h] at hends
    exact ih hends

theorem sound_headed_iff (hhead : Headed mem lim pnt) :
    Sound mem lim pnt peer ↔ pnt+7≤lim ∧ ¬Ignored mem peer.overrideCapability pnt ∧
      ∃ peer', peer'.overrideCapability=peer.overrideCapability ∧
        (turn lim pnt peer).value mem=.goOn (pnt+(mem (pnt+2)).toNat+3) peer' ∧
        Sound mem lim (pnt+(mem (pnt+2)).toNat+3) peer' := by
  obtain ⟨hreads,hstays,hgoes⟩ := turn_of_headed hhead
  have hpnt : pnt<lim := by
    have hroom := hhead.1
    omega
  by_cases hign : Ignored mem peer.overrideCapability pnt
  · exact iff_of_false (not_sound_of_stays hpnt (hstays hign)) fun h => h.2.1 hign
  obtain ⟨peer',hover,hturn⟩ := hgoes hign
  rw [sound_goOn hpnt hturn,hreads,and_iff_right hign]
  refine and_congr_right fun _ => ⟨fun h => ⟨peer',hover,hturn,h⟩,?_⟩
  rintro ⟨peer1,-,hturn1,h⟩
  cases hturn.symm.trans hturn1
  exact h

theorem sound_of_visited (h : Sound mem lim 0 peer) (hvisited : Visited mem lim pnt) :
    ∃ peer', peer'.overrideCapability=peer.overrideCapability ∧ Sound mem lim pnt peer' := by
  induction hvisited with
  | start => exact ⟨peer,rfl,h⟩
  | next _ hhead ih =>
    obtain ⟨peer1,hover1,hsound⟩ := ih
    obtain ⟨-,-,peer',hover,-,hnext⟩ := (sound_headed_iff hhead).mp hsound
    exact ⟨peer',hover.trans hover1,hnext⟩

/-- The loop ends where no proper header stands. -/
theorem sound_of_not_headed (h : ¬Headed mem lim pnt) : Sound mem lim pnt peer := by
  by_cases hpnt : pnt<lim
  · obtain ⟨hreads,answer,peer',hturn⟩ := turn_of_not_headed h
    refine ⟨⟨1,?_⟩,fun fuel => ?_⟩
    · rw [bgpCapabilityMsgParse,if_pos hpnt,value_bind,hturn]
      rfl
    cases fuel with
    | zero => exact within_pure _
    | succ fuel =>
      rw [bgpCapabilityMsgParse,if_pos hpnt,within_bind_iff,hturn]
      exact ⟨hreads,within_pure _⟩
  have hparse (fuel : ℕ) :
      bgpCapabilityMsgParse lim (fuel+1) pnt peer=pure (some (0,peer)) := if_neg hpnt
  refine ⟨⟨1,by rw [hparse]; rfl⟩,fun fuel => ?_⟩
  cases fuel with
  | zero => exact within_pure _
  | succ fuel =>
    rw [hparse]
    exact within_pure _

/-- The loop is sound from a position on when nothing ahead is wrong. -/
theorem sound_from {override : Bool} (hall : ∀ pnt, Visited mem lim pnt → Headed mem lim pnt →
      pnt+7≤lim ∧ ¬Ignored mem override pnt) :
    ∀ n pnt peer, lim-pnt≤n → Visited mem lim pnt → peer.overrideCapability=override →
      Sound mem lim pnt peer := by
  intro n
  induction n with
  | zero =>
    intro pnt peer hleft _ _
    refine sound_of_not_headed fun hhead => ?_
    have hroom := hhead.1
    omega
  | succ n ih =>
    intro pnt peer hleft hvisited hover
    by_cases hhead : Headed mem lim pnt
    · obtain ⟨hcopy,hign⟩ := hall pnt hvisited hhead
      rw [←hover] at hign
      obtain ⟨-,-,hgoes⟩ := turn_of_headed hhead
      obtain ⟨peer',hover',hturn⟩ := hgoes hign
      exact (sound_headed_iff hhead).mpr ⟨hcopy,hign,peer',hover',hturn,
        ih _ peer' (by omega) (hvisited.next hhead) (hover'.trans hover)⟩
    · exact sound_of_not_headed hhead

end

/-- The loop ends and reads inside exactly when every capability met has four bytes and is none to
ignore. -/
theorem bgpCapabilityMsgParse_sound_iff (mem : Memory) (lim : ℕ) (peer : Peer) :
    Sound mem lim 0 peer ↔ ∀ pnt, Visited mem lim pnt → Headed mem lim pnt →
      pnt+7≤lim ∧ ¬Ignored mem peer.overrideCapability pnt := by
  constructor
  · intro h pnt hvisited hhead
    obtain ⟨peer',hover,hsound⟩ := sound_of_visited h hvisited
    obtain ⟨hcopy,hign,-⟩ := (sound_headed_iff hhead).mp hsound
    exact ⟨hcopy,hover ▸ hign⟩
  · intro hall
    exact sound_from hall lim 0 peer (Nat.sub_le _ _) .start rfl

def barePeer : Peer := ⟨false,fun _ _ => false,fun _ _ => false,fun _ _ => false,[]⟩

/-- An unknown family loops for ever, and route refresh reads behind the message. -/
theorem bgpCapabilityMsgParse_hangs : (∀ fuel, (bgpCapabilityMsgParse 7 fuel 0 barePeer).value
      (fun k => [0,1,4,0,9,0,1].getD k 0)=none) ∧
    6∈(bgpCapabilityMsgParse 3 1 0 barePeer).offsets fun k => [0,2,0].getD k 0 := by
  refine ⟨fun fuel => ?_,by decide⟩
  induction fuel with
  | zero => rfl
  | succ fuel ih => exact ih

end RoutePlatform.CapabilityMessages
