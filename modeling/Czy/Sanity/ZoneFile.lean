import Czy.Sanity.ZoneData
import Czy.Spec.ZoneFile

/-! The layout of a zone file, version 1, and what the reader makes of it: it gets to its end
exactly on the files that have this layout. -/

namespace Czy.TimeZone

open ByteReader File

structure Header extends Counts where
  version : UInt8
  reserved : List UInt8
  reserved_length : reserved.length = 15

def Header.encode (header : Header) : List UInt8 :=
  magic ++ header.version :: header.reserved ++
    [header.isgmtcnt, header.isstdcnt, header.leapcnt,
      header.timecnt, header.typecnt, header.charcnt].flatMap htobe32

structure TypeEntry where
  gmtoff : Int32
  isdst : UInt8
  abbrind : UInt8
  deriving DecidableEq, Repr

def TypeEntry.encode (ty : TypeEntry) : List UInt8 := htobe32 ty.gmtoff ++ [ty.isdst, ty.abbrind]

def TypeEntry.localtime (ty : TypeEntry) : Localtime :=
  ⟨ty.gmtoff.toInt, ty.isdst != 0, ty.abbrind.toNat⟩

/-- The tables of a file: the transitions, each with the number of its type, and the types. -/
structure Tables where
  transitions : List (Int32 × UInt8)
  types : List TypeEntry
  indexed : ∀ tr ∈ transitions, tr.2.toNat < types.length

namespace Tables

def encode (tables : Tables) : List UInt8 :=
  (tables.transitions.map Prod.fst).flatMap htobe32 ++ tables.transitions.map Prod.snd ++
    tables.types.flatMap TypeEntry.encode

def offset (tables : Tables) (i : UInt8) : ℤ :=
  (tables.types.map fun ty => ty.gmtoff.toInt).getD i.toNat 0

def transitionsOf (tables : Tables) : List Transition :=
  tables.transitions.map fun tr => ⟨tr.1.toInt, tr.1.toInt + tables.offset tr.2, tr.2.toNat⟩

def localtimesOf (tables : Tables) : List Localtime := tables.types.map TypeEntry.localtime

end Tables

/-- What a zone file says. The three counts that nothing follows from are free. -/
structure TZif extends Tables where
  version : UInt8
  reserved : List UInt8
  isgmtcnt : Int32
  isstdcnt : Int32
  leapcnt : Int32
  chars : List UInt8
  reserved_length : reserved.length = 15
  transitions_length : transitions.length < 2 ^ 31
  types_length : types.length < 2 ^ 31
  chars_length : chars.length < 2 ^ 31

namespace TZif

def header (tz : TZif) : Header where
  version := tz.version
  reserved := tz.reserved
  reserved_length := tz.reserved_length
  isgmtcnt := tz.isgmtcnt
  isstdcnt := tz.isstdcnt
  leapcnt := tz.leapcnt
  timecnt := .ofNat tz.transitions.length
  typecnt := .ofNat tz.types.length
  charcnt := .ofNat tz.chars.length

def encode (tz : TZif) : List UInt8 := tz.header.encode ++ tz.toTables.encode ++ tz.chars

def data (tz : TZif) : Data := ⟨tz.transitionsOf, tz.localtimesOf, tz.chars⟩

end TZif

/-! The reads of `File`. -/

theorem reads_readBytes (n : ℤ) :
    Reads (readBytes n) (fun bs => (bs.length : ℤ) = n) (Layout.plain fun bs => bs) := by
  by_cases hn : n < 0
  · rw [readBytes, if_pos hn]
    refine fun s a t => ⟨nofun, ?_⟩
    rintro ⟨bs, hbs, -⟩
    omega
  · rw [readBytes, if_neg hn]
    intro s a t
    rw [reads_take n.toNat "no enough data" s a t]
    refine exists_congr fun bs => and_congr_left fun _ => ?_
    omega

theorem reads_readInt32 : Reads readInt32 (fun _ => True) (Layout.plain htobe32) :=
  reads_fixed length_htobe32 be32toh_htobe32 fun _ => htobe32_be32toh

theorem reads_readUInt8 : Reads readUInt8 (fun _ => True) (Layout.plain fun b => [b]) :=
  reads_fixed (fun _ => rfl) (fun _ => rfl) fun bs hbs => by
    obtain ⟨b, rfl⟩ := List.length_eq_one_iff.1 hbs
    rfl

theorem reads_readLocaltime : Reads readLocaltime (fun _ => True)
    ⟨TypeEntry.encode, fun _ => (), fun ty data =>
      { data with localtimes := data.localtimes ++ [ty.localtime] }⟩ := by
  intro s u t
  constructor
  · intro h
    obtain ⟨gmtoff, s₁, hoff, h⟩ := bind_value.1 h
    obtain ⟨isdst, s₂, hdst, h⟩ := bind_value.1 h
    obtain ⟨abbrind, s₃, hind, h⟩ := bind_value.1 h
    obtain ⟨_, -, hb₁, rfl, hd₁⟩ := (reads_readInt32 _ _ _).1 hoff
    obtain ⟨_, -, hb₂, rfl, hd₂⟩ := (reads_readUInt8 _ _ _).1 hdst
    obtain ⟨_, -, hb₃, rfl, hd₃⟩ := (reads_readUInt8 _ _ _).1 hind
    obtain rfl := modify_value.1 h
    refine ⟨⟨gmtoff, isdst, abbrind⟩, trivial, ?_, rfl, ?_⟩
    · rw [hb₁, hb₂, hb₃]
      simp only [Layout.plain, TypeEntry.encode, List.append_assoc, List.cons_append, List.nil_append]
    · rw [hd₃, hd₂, hd₁]
      rfl
  · rintro ⟨⟨gmtoff, isdst, abbrind⟩, -, hbytes, -, hdata⟩
    obtain ⟨bytes, data⟩ := s
    obtain ⟨rest, data'⟩ := t
    have hbytes : bytes = htobe32 gmtoff ++ ([isdst] ++ ([abbrind] ++ rest)) :=
      hbytes.trans (List.append_assoc _ _ _)
    rw [hbytes]
    refine bind_value.2 ⟨_, _, reads_readInt32.value trivial _ _, ?_⟩
    refine bind_value.2 ⟨_, _, reads_readUInt8.value trivial _ _, ?_⟩
    refine bind_value.2 ⟨_, _, reads_readUInt8.value trivial _ _, ?_⟩
    obtain rfl : data' = _ := hdata
    exact modify_value.2 rfl

theorem pushTransitions_none {tr : Int32 × UInt8} {s : State Data} (trs : List (Int32 × UInt8))
    (h : s.data.localtimes[tr.2.toNat]? = none) :
    pushTransitions (tr :: trs) s = .fault (.badPointer "data->localtimes[localIdx]") := by
  simp only [pushTransitions, h]

theorem pushTransitions_some {tr : Int32 × UInt8} {s : State Data} {ty : Localtime}
    (trs : List (Int32 × UInt8)) (h : s.data.localtimes[tr.2.toNat]? = some ty) :
    pushTransitions (tr :: trs) s = pushTransitions trs ⟨s.bytes, { s.data with
      transitions := s.data.transitions ++
        [⟨tr.1.toInt, tr.1.toInt + ty.gmtOffset, tr.2.toNat⟩] }⟩ := by
  simp only [pushTransitions, h]

theorem pushTransitions_value : ∀ {trs : List (Int32 × UInt8)} {s t : State Data} {u : Unit},
    pushTransitions trs s = .value u t ↔
      (∀ tr ∈ trs, tr.2.toNat < s.data.localtimes.length) ∧
      t = ⟨s.bytes, { s.data with transitions := s.data.transitions ++ trs.map fun tr =>
        ⟨tr.1.toInt, tr.1.toInt + (s.data.localtimes.map (·.gmtOffset)).getD tr.2.toNat 0,
          tr.2.toNat⟩ }⟩ := by
  intro trs
  induction trs with
  | nil =>
    intro s t u
    rw [List.map_nil, List.append_nil]
    refine ⟨fun h => ?_, ?_⟩
    · cases h
      exact ⟨fun tr htr => absurd htr List.not_mem_nil, rfl⟩
    · rintro ⟨-, rfl⟩
      rfl
  | cons tr trs ih =>
    intro s t u
    rw [List.forall_mem_cons]
    cases hty : s.data.localtimes[tr.2.toNat]? with
    | none =>
      have hle := List.getElem?_eq_none_iff.1 hty
      rw [pushTransitions_none trs hty]
      refine iff_of_false (fun h => ?_) fun h => absurd h.1.1 (not_lt.2 hle)
      cases h
    | some ty =>
      obtain ⟨hlt, hat⟩ := List.getElem?_eq_some_iff.1 hty
      have hoff : (s.data.localtimes.map (·.gmtOffset)).getD tr.2.toNat 0 = ty.gmtOffset := by
        rw [List.getD_eq_getElem?_getD, List.getElem?_map, hty]
        rfl
      rw [pushTransitions_some trs hty, ih, List.map_cons, hoff, and_iff_right hlt]
      simp only [List.append_assoc, List.cons_append, List.nil_append]

/-! The parts of the file. -/

theorem reads_readHeader : Reads readHeader (fun _ => True)
    ⟨Header.encode, Header.toCounts, fun _ data => data⟩ := by
  intro s counts t
  constructor
  · intro h
    obtain ⟨head, s₁, -, hb₁, hd₁, h⟩ := (reads_readBytes 4).of_bind h
    obtain ⟨_, s₂, hmagic, h⟩ := bind_value.1 h
    obtain ⟨rfl, rfl⟩ := ensure_value.1 hmagic
    obtain ⟨version, s₃, hlen, hb₃, hd₃, h⟩ := (reads_readBytes 1).of_bind h
    obtain ⟨reserved, s₄, hlen', hb₄, hd₄, h⟩ := (reads_readBytes 15).of_bind h
    obtain ⟨isgmtcnt, s₅, -, hb₅, hd₅, h⟩ := reads_readInt32.of_bind h
    obtain ⟨isstdcnt, s₆, -, hb₆, hd₆, h⟩ := reads_readInt32.of_bind h
    obtain ⟨leapcnt, s₇, -, hb₇, hd₇, h⟩ := reads_readInt32.of_bind h
    obtain ⟨timecnt, s₈, -, hb₈, hd₈, h⟩ := reads_readInt32.of_bind h
    obtain ⟨typecnt, s₉, -, hb₉, hd₉, h⟩ := reads_readInt32.of_bind h
    obtain ⟨charcnt, s₁₀, -, hb₁₀, hd₁₀, h⟩ := reads_readInt32.of_bind h
    obtain ⟨rfl, rfl⟩ := pure_value.1 h
    obtain ⟨b, rfl⟩ := List.length_eq_one_iff.1 (Int.ofNat.inj hlen)
    refine ⟨⟨⟨isgmtcnt, isstdcnt, leapcnt, timecnt, typecnt, charcnt⟩, b, reserved,
      Int.ofNat.inj hlen'⟩, trivial, ?_, rfl, ?_⟩
    · rw [hb₁, hb₃, hb₄, hb₅, hb₆, hb₇, hb₈, hb₉, hb₁₀]
      simp [Header.encode]
    · rw [hd₁₀, hd₉, hd₈, hd₇, hd₆, hd₅, hd₄, hd₃, hd₁]
  · rintro ⟨header, -, hbytes, rfl, hdata⟩
    obtain ⟨bytes, data⟩ := s
    obtain ⟨rest, data'⟩ := t
    obtain rfl : data' = data := hdata
    have hbytes : bytes = magic ++ ([header.version] ++ (header.reserved ++
        (htobe32 header.isgmtcnt ++ (htobe32 header.isstdcnt ++ (htobe32 header.leapcnt ++
        (htobe32 header.timecnt ++ (htobe32 header.typecnt ++ (htobe32 header.charcnt ++ rest)))))))) := by
      rw [show bytes = header.encode ++ rest from hbytes]
      simp [Header.encode]
    rw [hbytes, readHeader, (reads_readBytes 4).bind_enc rfl]
    refine bind_value.2 ⟨(), _, ensure_value.2 ⟨rfl, rfl⟩, ?_⟩
    rw [(reads_readBytes 1).bind_enc rfl,
      (reads_readBytes 15).bind_enc (congrArg _ header.reserved_length)]
    iterate 6 rw [reads_readInt32.bind_enc trivial]
    rfl

theorem store_localtimes (types : List TypeEntry) (data : Data) :
    types.foldl (fun data ty => { data with localtimes := data.localtimes ++ [ty.localtime] }) data =
      { data with localtimes := data.localtimes ++ types.map TypeEntry.localtime } := by
  induction types generalizing data with
  | nil => rw [List.map_nil, List.append_nil]; rfl
  | cons ty types ih =>
    rw [List.foldl_cons, ih, List.map_cons, ← List.append_cons]

theorem store_new (types : List TypeEntry) :
    types.foldl (fun data ty => { data with localtimes := data.localtimes ++ [ty.localtime] })
      Data.new = ⟨[], types.map TypeEntry.localtime, []⟩ :=
  store_localtimes types Data.new

/-- The tables are read exactly where the bytes are those of tables with these counts. -/
theorem readTables_value {counts : Counts} {bytes : List UInt8} {t : State Data} {u : Unit} :
    readTables counts ⟨bytes, Data.new⟩ = .value u t ↔ 0 ≤ counts.timecnt.toInt ∧
      ∃ tables : Tables, tables.transitions.length = counts.timecnt.toInt.toNat ∧
        tables.types.length = counts.typecnt.toInt.toNat ∧ bytes = tables.encode ++ t.bytes ∧
        t.data = ⟨tables.transitionsOf, tables.localtimesOf, []⟩ := by
  have htrans := reads_readInt32.times_plain counts.timecnt.toInt.toNat
  have hlocal := reads_readUInt8.times_plain counts.timecnt.toInt.toNat
  have htypes := reads_readLocaltime.times counts.typecnt.toInt.toNat
  constructor
  · intro h
    obtain ⟨_, _, hreserve, h⟩ := bind_value.1 h
    obtain ⟨hnn, rfl⟩ := ensure_value.1 hreserve
    obtain ⟨trans, s₁, hlen₁, hb₁, hd₁, h⟩ := htrans.of_bind h
    obtain ⟨localtimes, s₂, hlen₂, hb₂, hd₂, h⟩ := hlocal.of_bind h
    obtain ⟨_, s₃, hread, h⟩ := bind_value.1 h
    obtain ⟨types, ⟨hlen₃, -⟩, hb₃, -, hd₃⟩ := (htypes _ _ _).1 hread
    obtain ⟨hindexed, rfl⟩ := pushTransitions_value.1 h
    have hdata : s₃.data = ⟨[], types.map TypeEntry.localtime, []⟩ := by
      rw [hd₃, hd₂, hd₁]
      exact store_new types
    have hfst : (trans.zip localtimes).map Prod.fst = trans :=
      List.map_fst_zip (by rw [hlen₁, hlen₂])
    have hsnd : (trans.zip localtimes).map Prod.snd = localtimes :=
      List.map_snd_zip (by rw [hlen₁, hlen₂])
    rw [hdata, List.length_map] at hindexed
    refine ⟨hnn, ⟨trans.zip localtimes, types, hindexed⟩, ?_, hlen₃, ?_, ?_⟩
    · rw [List.length_zip, hlen₁, hlen₂, min_self]
    · have hb₁ : bytes = trans.flatMap htobe32 ++ s₁.bytes := hb₁
      rw [Tables.encode, hfst, hsnd, hb₁, hb₂, hb₃, List.flatMap_singleton']
      simp only [List.append_assoc]
      rfl
    · rw [hdata]
      simp only [Tables.transitionsOf, Tables.localtimesOf, Tables.offset, List.map_map]
      rfl
  · rintro ⟨hnn, tables, hlen, hlen₃, hbytes, hdata⟩
    have hbytes : bytes = (tables.transitions.map Prod.fst).flatMap htobe32 ++
        ((tables.transitions.map Prod.snd).flatMap (fun b => [b]) ++
          (tables.types.flatMap TypeEntry.encode ++ t.bytes)) := by
      rw [hbytes, Tables.encode, List.flatMap_singleton']
      simp only [List.append_assoc]
    rw [hbytes]
    refine bind_value.2 ⟨(), _, ensure_value.2 ⟨hnn, rfl⟩, ?_⟩
    rw [loop, loop, loop, htrans.bind_enc (by rw [List.length_map, hlen]),
      hlocal.bind_enc (by rw [List.length_map, hlen])]
    refine bind_value.2 ⟨_, _, htypes.value ⟨hlen₃, fun _ _ => trivial⟩ _ _, ?_⟩
    refine pushTransitions_value.2 ?_
    obtain ⟨rest, data⟩ := t
    obtain rfl : data = _ := hdata
    have hzip := List.zip_unzip tables.transitions
    rw [List.unzip_eq_map] at hzip
    simp only [Layout.times, hzip, store_new, List.length_map]
    refine ⟨tables.indexed, ?_⟩
    simp only [Tables.transitionsOf, Tables.localtimesOf, Tables.offset, List.map_map,
      List.nil_append]
    rfl

/-- A file with this layout is read to the end. -/
theorem readZone_encode (tz : TZif) (trailing : List UInt8) :
    readZone ⟨tz.encode ++ trailing, Data.new⟩ = .value () ⟨trailing, tz.data⟩ := by
  have hcount : ∀ {n : ℕ}, n < 2 ^ 31 → (Int32.ofNat n).toInt = n := Int32.toInt_ofNat_of_lt
  have htables : readTables tz.header.toCounts
      ⟨tz.toTables.encode ++ (tz.chars ++ trailing), Data.new⟩ =
      .value () ⟨tz.chars ++ trailing, ⟨tz.transitionsOf, tz.localtimesOf, []⟩⟩ := by
    refine readTables_value.2 ⟨?_, tz.toTables, ?_, ?_, rfl, rfl⟩
    · change 0 ≤ (Int32.ofNat tz.transitions.length).toInt
      rw [hcount tz.transitions_length]
      exact Int.natCast_nonneg _
    · change _ = (Int32.ofNat tz.transitions.length).toInt.toNat
      rw [hcount tz.transitions_length, Int.toNat_natCast]
    · change _ = (Int32.ofNat tz.types.length).toInt.toNat
      rw [hcount tz.types_length, Int.toNat_natCast]
  have hbytes : tz.encode ++ trailing =
      tz.header.encode ++ (tz.toTables.encode ++ (tz.chars ++ trailing)) := by
    rw [TZif.encode, List.append_assoc, List.append_assoc]
  rw [hbytes]
  refine bind_value.2 ⟨_, _, reads_readHeader.value trivial _ _, ?_⟩
  refine bind_value.2 ⟨(), _, htables, ?_⟩
  exact (reads_readBytes _).bind_enc (hcount tz.chars_length).symm _ _

theorem ofNat_eq {x : Int32} {n : ℕ} (h : (n : ℤ) = x.toInt) : Int32.ofNat n = x := by
  refine Int32.toInt_inj.1 ?_
  have hlt := x.toInt_lt
  rw [Int32.toInt_ofNat_of_lt (by omega), h]

/-- A file that is read to the end, and leaves a type, has this layout. -/
theorem readZone_value {bytes : List UInt8} {t : State Data} {u : Unit}
    (h : readZone ⟨bytes, Data.new⟩ = .value u t) (hne : t.data.localtimes ≠ []) :
    ∃ tz : TZif, bytes = tz.encode ++ t.bytes ∧ t.data = tz.data := by
  obtain ⟨counts, s₁, hcounts, h⟩ := bind_value.1 h
  obtain ⟨header, -, hb₁, rfl, hd₁⟩ := (reads_readHeader _ _ _).1 hcounts
  obtain ⟨rest, data⟩ := s₁
  obtain rfl : data = Data.new := hd₁
  obtain ⟨_, s₂, htables, h⟩ := bind_value.1 h
  obtain ⟨hnn, tables, hlen, hlen', hb₂, hd₂⟩ := readTables_value.1 htables
  obtain ⟨chars, s₃, hchars, hb₃, hd₃, h⟩ := (reads_readBytes _).of_bind h
  obtain rfl := modify_value.1 h
  have htypes : tables.types ≠ [] := by
    rintro hnil
    refine hne ?_
    change s₃.data.localtimes = []
    rw [hd₃, hd₂]
    exact congrArg (List.map TypeEntry.localtime) hnil
  have hpos := List.length_pos_iff.2 htypes
  have htime : (tables.transitions.length : ℤ) = header.timecnt.toInt := by
    rw [hlen]
    exact Int.toNat_of_nonneg hnn
  have htype : (tables.types.length : ℤ) = header.typecnt.toInt := by
    rw [hlen'] at hpos ⊢
    exact Int.toNat_of_nonneg (by omega)
  have hbound : ∀ {n : ℕ} {x : Int32}, (n : ℤ) = x.toInt → n < 2 ^ 31 := by
    intro n x h
    have := x.toInt_lt
    omega
  obtain ⟨⟨isgmtcnt, isstdcnt, leapcnt, timecnt, typecnt, charcnt⟩, version, reserved, hres⟩ := header
  refine ⟨⟨tables, version, reserved, isgmtcnt, isstdcnt, leapcnt, chars, hres,
    hbound htime, hbound htype, hbound hchars⟩, ?_, ?_⟩
  · have hb₁ : bytes = Header.encode _ ++ rest := hb₁
    rw [hb₁, hb₂, hb₃, TZif.encode, TZif.header]
    simp only [ofNat_eq htime, ofNat_eq htype, ofNat_eq hchars, List.append_assoc]
  · change (⟨s₃.data.transitions, s₃.data.localtimes, chars⟩ : Data) = _
    rw [hd₃, hd₂]
    rfl

/-! The abbreviation is stored last: an exception leaves it empty. -/

def NoAbbreviation (data : Data) : Prop := data.abbreviation = []

theorem keeps_readBytes (n : ℤ) : Keeps NoAbbreviation (readBytes n) := by
  by_cases hn : n < 0
  · rw [readBytes, if_pos hn]
    exact keeps_fault _
  · rw [readBytes, if_neg hn]
    exact keeps_take _ _

theorem keeps_readInt32 : Keeps NoAbbreviation readInt32 :=
  (keeps_take _ _).bind fun _ => keeps_pure _

theorem keeps_readUInt8 : Keeps NoAbbreviation readUInt8 :=
  (keeps_take _ _).bind fun _ => keeps_pure _

theorem keeps_readLocaltime : Keeps NoAbbreviation readLocaltime :=
  keeps_readInt32.bind fun _ => keeps_readUInt8.bind fun _ => keeps_readUInt8.bind fun _ =>
    keeps_modify fun _ h => h

theorem keeps_pushTransitions : ∀ trs, Keeps NoAbbreviation (pushTransitions trs) := by
  intro trs
  induction trs with
  | nil => exact keeps_pure ()
  | cons tr trs ih =>
    intro s hI data hdata
    cases hty : s.data.localtimes[tr.2.toNat]? with
    | none =>
      rw [pushTransitions_none trs hty] at hdata
      cases hdata
    | some ty =>
      rw [pushTransitions_some trs hty] at hdata
      refine ih _ ?_ data hdata
      exact hI

theorem keeps_readHeader : Keeps NoAbbreviation readHeader :=
  (keeps_readBytes 4).bind fun _ => (keeps_ensure _ _).bind fun _ =>
    (keeps_readBytes 1).bind fun _ => (keeps_readBytes 15).bind fun _ =>
    keeps_readInt32.bind fun _ => keeps_readInt32.bind fun _ => keeps_readInt32.bind fun _ =>
    keeps_readInt32.bind fun _ => keeps_readInt32.bind fun _ => keeps_readInt32.bind fun _ =>
    keeps_pure _

theorem keeps_readTables (counts : Counts) : Keeps NoAbbreviation (readTables counts) :=
  (keeps_ensure _ _).bind fun _ => (keeps_readInt32.times _).bind fun _ =>
    (keeps_readUInt8.times _).bind fun _ => (keeps_readLocaltime.times _).bind fun _ =>
    keeps_pushTransitions _

theorem readZone_thrown {s : State Data} {what : String} {data : Data}
    (hI : NoAbbreviation s.data) (h : readZone s = .thrown what data) : NoAbbreviation data := by
  rcases bind_thrown.1 h with h | ⟨counts, s₁, hheader, h⟩
  · exact keeps_readHeader.thrown hI h
  have hI₁ := keeps_readHeader.value hI hheader
  rcases bind_thrown.1 h with h | ⟨_, s₂, htables, h⟩
  · exact (keeps_readTables counts).thrown hI₁ h
  have hI₂ := (keeps_readTables counts).value hI₁ htables
  rcases bind_thrown.1 h with h | ⟨_, s₃, _, h⟩
  · exact (keeps_readBytes _).thrown hI₂ h
  · cases h

end Czy.TimeZone
