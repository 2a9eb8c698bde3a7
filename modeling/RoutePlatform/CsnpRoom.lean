import RoutePlatform.SnpOperations
import RoutePlatform.TlvRoundTrip

/-!
# Room for a CSNP

`build_csnp` writes the headers, the authentication and the entries, fifteen to a field. It
succeeds exactly when all of this fits into the stream.
-/

namespace RoutePlatform.CsnpRoom

open StreamOperations TlvOperations TlvRoundTrip SnpOperations List

variable (s : Stream) (bytes : List Byte) {m n : ℕ}

/-- The bytes that the authentication takes. -/
def authSize (passwd : IsisPasswd) : ℕ :=
  if passwd.Sends then
    if passwd.type=passwdTypeCleartxt then 3+passwd.passwd.length
    else if passwd.type=passwdTypeHmacMd5 then 19
    else 0
  else 0

/-- The bytes that some entries take. -/
def entriesSize (n : ℕ) : ℕ := 16*n+2*max 1 ((n+14)/15)

/-- There is room for a CSNP with some entries. -/
def Room (level : IsisLevel) (circuit : IsisCircuit) (n : ℕ) : Prop :=
  33+authSize (circuit.passwd level)+entriesSize n≤circuit.sndSize

theorem entriesSize_mono (h : m≤n) : entriesSize m≤entriesSize n := by
  have hdiv : (m+14)/15≤(n+14)/15 := Nat.div_le_div_right (by omega)
  rw [entriesSize,entriesSize]
  omega

theorem Room.mono {level : IsisLevel} {circuit : IsisCircuit} (h : m≤n)
    (hroom : Room level circuit n) : Room level circuit m :=
  (Nat.add_le_add_left (entriesSize_mono h) _).trans hroom

section

variable {tag : Byte} {value : List Byte} {s : Stream}

theorem addTlv_cases (h : value.length≤255) (s : Stream) :
    (value.length+2 ≤ s.writeable ∧ ∃ s', addTlv tag value s=(.isisOk,s') ∧
      s'.writeable=s.writeable-(value.length+2)) ∨
    (s.writeable<value.length+2 ∧ addTlv tag value s=(.isisWarning,s)) := by
  have hlen : (tlvBytes tag value).length=value.length+2 := rfl
  rw [addTlv_eq h]
  rcases lt_or_ge s.writeable (value.length+2) with hlt|hge
  · refine Or.inr ⟨hlt,?_⟩
    have hnone : s.put (tlvBytes tag value)=none :=
      dif_neg (by rw [hlen]; exact not_le.mpr hlt)
    rw [hnone]
  obtain ⟨s',hput⟩ := @exists_put s (tlvBytes tag value) (by rw [hlen]; exact hge)
  refine Or.inl ⟨hge,s',?_,writeable_of_put hput⟩
  rw [hput]

/-- Some entries, with what is in the buffer already. -/
theorem addLoop_entries {α : Type} {put : α → List Byte} (hput : ∀ e, (put e).length=16)
    (es : List α) : ∀ (value : List Byte) (s : Stream) (n : ℕ), value.length=16*n → n≤15 →
      (entriesSize (n+es.length) ≤ s.writeable ∧
        ∃ s', addLoop tag (fun _ => 16) put es value s=some (.isisOk,s')) ∨
      (s.writeable<entriesSize (n+es.length) ∧
        ∃ s', addLoop tag (fun _ => 16) put es value s=some (.isisWarning,s')) := by
  induction es with
  | nil =>
    intro value s n hval hn
    have hsize : entriesSize (n+([] : List α).length)=value.length+2 := by
      rw [length_nil,add_zero,entriesSize,hval]
      have hone : (n+14)/15≤1 := by omega
      rw [max_eq_left hone]
    rw [hsize]
    rcases @addTlv_cases tag value (by omega) s with
      ⟨hroom,s',hadd,-⟩ | ⟨hroom,hadd⟩
    · exact Or.inl ⟨hroom,s',congrArg some hadd⟩
    · exact Or.inr ⟨hroom,s,congrArg some hadd⟩
  | cons e es ih =>
    intro value s n hval hn
    rw [length_cons]
    rcases lt_or_ge n 15 with hlt|hge
    · have hsto : (value++put e).length=16*(n+1) := by
        rw [length_append,hput,hval]
        omega
      rw [addLoop_fits es s (by omega) (hput e).le,add_comm es.length 1,←add_assoc]
      exact ih _ s (n+1) hsto (by omega)
    obtain rfl : n=15 := le_antisymm hn hge
    have hvalue255 : value.length≤255 := by omega
    have hsize : entriesSize (15+(es.length+1)) = value.length+2+entriesSize (1+es.length) := by
      rw [entriesSize,entriesSize,hval]
      have hdiv : (15+(es.length+1)+14)/15=(1+es.length+14)/15+1 := by omega
      have hpos : 1≤(1+es.length+14)/15 := by omega
      rw [hdiv,max_eq_right hpos,max_eq_right (by omega)]
      omega
    rw [hsize,addLoop_cut es s (by omega) (by rw [hput]; decide)]
    rcases @addTlv_cases tag value hvalue255 s with ⟨hroom,s1,hadd,hleft⟩|⟨hroom,hadd⟩
    · rw [hadd,if_pos rfl]
      rcases ih (put e) s1 1 (hput e) (by decide) with ⟨hrs,hrun⟩|⟨hrs,hrun⟩
      · exact Or.inl ⟨by omega,hrun⟩
      · exact Or.inr ⟨by omega,hrun⟩
    rw [hadd,if_neg nofun]
    exact Or.inr ⟨by omega,s,rfl⟩

end

section

theorem writeable_streamPut : (streamPut s bytes).writeable=s.writeable-bytes.length := by
  have hdata : (streamPut s bytes).data=s.data++bytes.take s.writeable := rfl
  have hsize : (streamPut s bytes).size=s.size := rfl
  rw [Stream.writeable,Stream.endp,hdata,hsize,length_append,length_take,
    Stream.writeable,Stream.endp]
  omega

theorem writeable_putOrLeave :
    (putOrLeave s bytes).writeable=s.writeable-bytes.length ∨
      s.writeable<bytes.length ∧ (putOrLeave s bytes).writeable=s.writeable := by
  rw [putOrLeave]
  cases hput : s.put bytes with
  | some s' => exact Or.inl (writeable_of_put hput)
  | none =>
    refine Or.inr ⟨not_le.mp fun hle => ?_,rfl⟩
    obtain ⟨s',hsome⟩ := exists_put hle
    rw [hsome] at hput
    cases hput

theorem writeable_putc (b : Byte) : (putOrLeave s [b]).writeable=s.writeable-1 := by
  rcases writeable_putOrLeave s [b] with h|⟨hlt,h⟩
  · exact h
  rw [length_singleton] at hlt
  omega

theorem writeable_fillFixedHdr (level : IsisLevel) (s : Stream) :
    (fillFixedHdr level s).writeable=s.writeable-8 := by
  have hfold : ∀ (bytes : List Byte) (s : Stream),
      (bytes.foldl (fun s b => putOrLeave s [b]) s).writeable=s.writeable-bytes.length := by
    intro bytes
    induction bytes with
    | nil => exact fun s => rfl
    | cons b bytes ih =>
      intro s
      rw [foldl_cons,ih,writeable_putc,length_cons]
      omega
  exact hfold _ s

theorem writeable_csnpHeaders (sysid : Octets 6) (level : IsisLevel) (start stop : LspId)
    (s : Stream) : (csnpHeaders sysid level start stop s).writeable=s.writeable-33 := by
  rw [csnpHeaders,writeable_streamPut,writeable_streamPut,writeable_putc,writeable_streamPut,
    stop.length_eq,start.length_eq,sysid.length_eq]
  have hfixed := writeable_fillFixedHdr level s
  rcases writeable_putOrLeave (fillFixedHdr level s) [0,0] with h|⟨hlt,h⟩
  · rw [h,hfixed]
    change s.writeable-8-2-6-1-8-8=_
    omega
  change _<2 at hlt
  omega

/-- The authentication is written exactly when there is room. -/
theorem csnpAuth_cases (passwd : IsisPasswd) (s : Stream) :
    (authSize passwd ≤ s.writeable ∧ ∃ s', csnpAuth passwd s=(.isisOk,s') ∧
      s'.writeable=s.writeable-authSize passwd) ∨
    (s.writeable<authSize passwd ∧ csnpAuth passwd s=(.isisWarning,s)) := by
  have hfits := passwd.fits
  rw [authSize,csnpAuth]
  split
  · split
    · rcases @addTlv_cases 10 (passwdTypeCleartxt::passwd.passwd)
        (by rw [length_cons]; omega) s with ⟨hroom,s',hadd,hleft⟩ | ⟨hroom,hadd⟩
      · rw [length_cons] at hroom hleft
        exact Or.inl ⟨by omega,s',hadd,by omega⟩
      rw [length_cons] at hroom
      exact Or.inr ⟨by omega,hadd⟩
    split
    · rcases @addTlv_cases 10 (passwdTypeHmacMd5::replicate 16 0)
        (by decide) s with ⟨hroom,s',hadd,hleft⟩ | ⟨hroom,hadd⟩
      · exact Or.inl ⟨hroom,s',hadd,hleft⟩
      · exact Or.inr ⟨hroom,hadd⟩
    · exact Or.inl ⟨Nat.zero_le _,s,rfl,rfl⟩
  · exact Or.inl ⟨Nat.zero_le _,s,rfl,rfl⟩

theorem buildCsnp_cases (hmacMd5 : List Byte→List Byte→List Byte) (sysid : Octets 6)
    (level : IsisLevel) (start stop : LspId) (lsps : List IsisLsp) (circuit : IsisCircuit) :
    (Room level circuit lsps.length ∧
      ∃ pdu, buildCsnp hmacMd5 sysid level start stop lsps circuit=some (.ok pdu)) ∨
    (¬Room level circuit lsps.length ∧
      buildCsnp hmacMd5 sysid level start stop lsps circuit=some (.error .isisWarning)) := by
  have hleft := writeable_csnpHeaders sysid level start stop (streamNew circuit.sndSize)
  have hnew : (streamNew circuit.sndSize).writeable=circuit.sndSize := rfl
  have hpos : 2≤entriesSize lsps.length := by
    rw [entriesSize]
    omega
  have hput : ∀ e : LspEntry, e.put.length=16 := by
    intro e
    rw [LspEntry.put,length_append,length_append,length_append,
      e.remLifetime.length_eq,e.lspId.length_eq,e.seqNum.length_eq,e.checksum.length_eq]
  rw [hnew] at hleft
  rw [buildCsnp,Room]
  rcases csnpAuth_cases (circuit.passwd level)
    (csnpHeaders sysid level start stop (streamNew circuit.sndSize)) with
    ⟨hauth,s1,hadd,hrs⟩ | ⟨hauth,hadd⟩
  · rw [hadd,if_neg (fun h => h rfl),tlvAddLspEntries]
    have hent := @addLoop_entries 9 _ _ hput (lsps.map IsisLsp.header) [] s1 0 rfl (by decide)
    rw [length_map,zero_add] at hent
    rcases hent with ⟨hroom,s',hrun⟩|⟨hroom,s',hrun⟩
    · refine Or.inl ⟨by omega,?_⟩
      rw [hrun,Option.map_some,if_neg (fun h => h rfl)]
      exact ⟨_,rfl⟩
    refine Or.inr ⟨by omega,?_⟩
    rw [hrun,Option.map_some,if_pos nofun]
  rw [hadd,if_pos nofun]
  exact Or.inr ⟨by omega,rfl⟩

end

end RoutePlatform.CsnpRoom
