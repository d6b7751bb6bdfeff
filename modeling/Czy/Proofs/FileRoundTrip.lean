import Czy.Proofs.LogRolling
import Czy.Proofs.ReadSmallFile
import Czy.Proofs.WrittenBytes

/-! What an `AppendFile` writes is what a `ReadSmallFile` reads: the lines, as far as the stream
took them, behind what the file held before. -/

namespace Czy

open AppendFile FileUtil ReadSmallFile StepRun

section

variable {file file' : AppendFile} {call : AppendCall} {calls : List AppendCall}

theorem AppendFile.appendErr_clean (hok : ∀ write ∈ call.writes, write.error = false)
    (h : file.appendErr call = .ok file') : file'.content = file.content ++ call.logline := by
  rw [appendErr_eq hok h, append, appendLoop_eq]

theorem AppendFile.run_clean (hok : ∀ call ∈ calls, ∀ write ∈ call.writes, write.error = false)
    (h : run appendErr file calls = .ok file') :
    file'.content = file.content ++ (calls.map AppendCall.logline).flatten := by
  induction calls generalizing file with
  | nil =>
    cases h
    exact (List.append_nil _).symm
  | cons call calls ih =>
    obtain ⟨file₁, h₁, hrest⟩ := run_cons_ok h
    rw [List.forall_mem_cons] at hok
    rw [ih hok.2 hrest, appendErr_clean hok.1 h₁, List.append_assoc]
    rfl

end

section

variable {reads : ℕ → ReadOutcome} {maxSize fuel : ℕ} {rest : List UInt8} {r r' : ReadToString}

theorem FileUtil.ReadSmallFile.readLoop_pointers
    (h : readLoop reads maxSize fuel rest r = some r') : r'.pointers = r.pointers := by
  induction fuel generalizing rest r with
  | zero => cases h
  | succ fuel ih =>
    rw [readLoop] at h
    split_ifs at h
    · dsimp only at h
      split at h
      · cases h
        rfl
      · split_ifs at h
        · cases h
          rfl
        · exact (ih h).trans rfl
    · cases h
      rfl

end

/-- The bytes of the file on disk, once the stream is closed: "a" keeps what was there before. -/
def onDisk (before : List UInt8) (file : AppendFile) (mtime ctime : ℤ) : OpenFile :=
  ⟨before ++ file.content, .ok ⟨.regular, (before ++ file.content).length, mtime, ctime⟩⟩

theorem stat_fileSize (before : List UInt8) (file : AppendFile) (mtime ctime : ℤ) (p : Pointers) :
    (stat (onDisk before file mtime ctime) 0 p).2.fileSize =
      p.fileSize.map fun _ => (before.length : ℤ) + file.content.length := by
  obtain ⟨fileSize, modifyTime, createTime⟩ := p
  cases fileSize with
  | none => rfl
  | some fileSize =>
    change some ((before ++ file.content).length : ℤ) = some ((before.length : ℤ) + file.content.length)
    rw [List.length_append, Nat.cast_add]

/-- One `pread` into `m_buf`: a text from the start of the file with its end behind it, and no
byte outside the buffer. -/
theorem readToBuffer_text {file : OpenFile} {err : ℤ} {buf : List UInt8} (hbuf : buf.length = kBuffSize)
    (k : ℕ) (size : Option ℤ) :
    ∃ data, data <+: file.bytes ∧ data.length < kBuffSize ∧
      readToBuffer ⟨some file, err⟩ buf (.got k) size =
        ⟨err, size.map fun _ => data.length, data ++ 0 :: buf.drop (data.length + 1)⟩ ∧
      (data ++ 0 :: buf.drop (data.length + 1)).length = kBuffSize := by
  have hlt : (file.bytes.take (min (k + 1) (kBuffSize - 1))).length < kBuffSize := by
    rw [List.length_take, kBuffSize]
    omega
  refine ⟨_, List.take_prefix _ _, hlt, rfl, ?_⟩
  rw [List.length_append, List.length_cons, List.length_drop, hbuf]
  omega

section

variable {name : String} {openedAt : ℤ} {calls : List AppendCall} {file : AppendFile}

theorem exists_parts (hrun : run appendErr (AppendFile.new name openedAt) calls = .ok file) :
    ∃ parts, file.content = parts.flatten ∧
      List.Forall₂ (· <+: ·) parts (calls.map AppendCall.logline) ∧
      ((∀ call ∈ calls, ∀ write ∈ call.writes, write.error = false) →
        parts = calls.map AppendCall.logline) := by
  by_cases hclean : ∀ call ∈ calls, ∀ write ∈ call.writes, write.error = false
  · exact ⟨_, run_clean hclean hrun, List.forall₂_same.2 fun _ _ => List.prefix_rfl, fun _ => rfl⟩
  · obtain ⟨parts, hparts, hcontent⟩ := run_taken hrun
    exact ⟨parts, hcontent, hparts, fun hok => absurd hok hclean⟩

/-- Whatever the stream takes at a time and `read` delivers at a time: the string gets the
beginnings of the lines that were taken, the lines themselves if there was no error, up to the
size asked for; the size of the file is `written_bytes()` and what was there before, unless
bytes were lost from the count. -/
theorem append_read_roundTrip (hrun : run appendErr (AppendFile.new name openedAt) calls = .ok file)
    (before : List UInt8) (mtime ctime : ℤ) {size : ℤ} (h0 : 0 ≤ size) (hint : size < 2 ^ 31)
    {reads : ℕ → ReadOutcome} (hreads : ∀ i errno, reads i ≠ .failed errno)
    (content : List UInt8) (p : Pointers) :
    ∃ r parts, (∀ fuel, size.toNat < fuel →
        readFile (.ok (onDisk before file mtime ctime)) reads fuel size content p = some r) ∧
      r.err = 0 ∧ r.content = (before ++ parts.flatten).take size.toNat ∧
      List.Forall₂ (· <+: ·) parts (calls.map AppendCall.logline) ∧
      ((∀ call ∈ calls, ∀ write ∈ call.writes, write.error = false) →
        parts = calls.map AppendCall.logline) ∧
      ((∀ call ∈ calls, ¬ CountLost call) → r.pointers.fileSize =
        p.fileSize.map fun _ => before.length + file.writeBytes) := by
  obtain ⟨parts, hcontent, hparts, hclean⟩ := exists_parts hrun
  have hstart : Sound (onDisk before file mtime ctime).bytes (onDisk before file mtime ctime).bytes
      size.toNat ⟨(stat (onDisk before file mtime ctime) 0 p).1, [],
        (stat (onDisk before file mtime ctime) 0 p).2, []⟩ := ⟨rfl, rfl, Nat.zero_le _⟩
  obtain ⟨r, hr, hfinished⟩ := readLoop_finishes reads hstart (Nat.sub_le size.toNat 0)
  obtain ⟨hall, herr⟩ := hfinished.complete fun errno hfails => hreads _ errno hfails.2
  have hpointers := readLoop_pointers (hr (size.toNat + 1) (Nat.lt_succ_self _))
  refine ⟨r, parts, fun fuel hfuel => ?_, ?_, ?_, hparts, hclean, fun hcount => ?_⟩
  · rw [readFile, create, readToString, sizeOfInt_of_nonneg h0 hint]
    exact hr fuel hfuel
  · exact herr.trans (stat_regular (.inr ⟨_, rfl, rfl⟩))
  · rw [hall, onDisk, hcontent]
  · have hbytes : file.writeBytes = file.content.length := (run_counted_iff rfl hrun).2 hcount
    rw [hpointers, hbytes]
    exact stat_fileSize before file mtime ctime p

theorem append_read_roundTrip_failing : ∃ r parts,
    (∀ fuel, (100 : ℤ).toNat < fuel → readFile (.ok (onDisk [10] ⟨"log", 0, [97, 98, 99], 3⟩ 0 0))
      (fun _ => .got 0) fuel 100 [] ⟨none, none, none⟩ = some r) ∧
    r.err = 0 ∧ r.content = ([10] ++ parts.flatten).take (100 : ℤ).toNat ∧
    List.Forall₂ (· <+: ·) parts [[97, 98], [99, 100]] ∧
    ((∀ call ∈ [(⟨[97, 98], [⟨2, false⟩]⟩ : AppendCall), ⟨[99, 100], [⟨1, false⟩, ⟨0, true⟩]⟩],
      ∀ write ∈ call.writes, write.error = false) → parts = [[97, 98], [99, 100]]) ∧
    ((∀ call ∈ [(⟨[97, 98], [⟨2, false⟩]⟩ : AppendCall), ⟨[99, 100], [⟨1, false⟩, ⟨0, true⟩]⟩],
      ¬ CountLost call) → r.pointers.fileSize =
        (none : Option ℤ).map fun _ => (1 : ℕ) + (3 : ℤ)) := by
  have hrun : run appendErr (AppendFile.new "log" 0)
    [⟨[97, 98], [⟨2, false⟩]⟩, ⟨[99, 100], [⟨1, false⟩, ⟨0, true⟩]⟩] =
      .ok ⟨"log", 0, [97, 98, 99], 3⟩ := rfl
  exact append_read_roundTrip hrun [10] 0 0 (by decide) (by decide)
    (fun _ _ h => ReadOutcome.noConfusion h) [] ⟨none, none, none⟩

end

end Czy
