import BlackBull.ByteString

/-!
# Decompressing a gRPC message

`decompress_gzip` over zlib's stream object, of which only the documented behaviour is assumed. It
looks at neither `eof` nor `unused_data`, so it takes the beginning of a stream for the whole and
does not see what follows a stream.
-/

namespace BlackBull.Grpc

open ByteString

/-- What octets are to a gzip decoder, with all that they decompress to. -/
inductive GzipReading
  | complete (content rest : Bytes)
  | truncated (output : Bytes)
  | corrupt (output : Bytes)
  deriving DecidableEq

@[simp] def GzipReading.output : GzipReading → Bytes
  | complete output _ | truncated output | corrupt output => output

/-- `zlib.decompressobj`: a call whose output stays below its bound has taken all of the input,
and a call that is stopped returns as much as the bound. -/
structure Decompressor (σ : Type) where
  read : Bytes → GzipReading
  decompress : Bytes → ℕ → Except String (Bytes × σ)
  unconsumedTail : σ → Bytes
  flush : σ → Except String Bytes
  below : ∀ data bound,(read data).output.length<bound → match read data with
    | .corrupt _ => ∃ text,decompress data bound=.error text
    | .complete output _ | .truncated output => ∃ d,decompress data bound=.ok (output,d) ∧
        unconsumedTail d=[] ∧ flush d=.ok []
  stopped : ∀ data bound r,bound≤(read data).output.length → decompress data bound=.ok r →
    r.1=(read data).output.take bound

inductive DecompressionError
  | gzip (text : String)
  | bomb (text : String)

def bombText (maxOutput : ℕ) : String :=
  "decompressed message exceeds the " ++ toString maxOutput ++ "-byte limit"

variable {σ : Type}

def decompressGzip (zlib : Decompressor σ) (data : Bytes) (maxOutput : ℕ) :
    Except DecompressionError Bytes :=
  match zlib.decompress data (maxOutput+1) with
  | .error text => .error (.gzip ("gzip: " ++ text))
  | .ok (out,d) =>
    if zlib.unconsumedTail d≠[] ∨ out.length>maxOutput then .error (.bomb (bombText maxOutput))
    else
      match zlib.flush d with
      | .error text => .error (.gzip ("gzip: " ++ text))
      | .ok rest =>
        if (out++rest).length>maxOutput then .error (.bomb (bombText maxOutput))
        else .ok (out++rest)

/-- A value is the content of the one stream that the input is, within the limit. -/
def Exact (zlib : Decompressor σ) (data : Bytes) (maxOutput : ℕ) : Prop :=
  ∀ value,decompressGzip zlib data maxOutput=.ok value →
    zlib.read data=.complete value [] ∧ value.length≤ maxOutput

/-- What is accepted beyond that is the beginning of a stream and octets behind one. -/
def Whole (maxOutput : ℕ) : GzipReading → Prop
  | .complete content rest => rest=[] ∨ maxOutput<content.length
  | .truncated output => maxOutput<output.length
  | .corrupt _ => True

variable (zl : Decompressor σ) {data : Bytes} {mo : ℕ}

theorem decompressGzip_stopped (h : mo<(zl.read data).output.length) (v : Bytes) :
    decompressGzip zl data mo≠.ok v := by
  unfold decompressGzip
  split
  · nofun
  · next out d hd =>
    have ho := zl.stopped data _ _ h hd
    have hl : out.length=mo+1 := by
      rw [show out=_ from ho,List.length_take]
      omega
    rw [if_pos (.inr (by omega))]
    nofun

theorem decompressGzip_of_taken {o : Bytes} {d : σ}
    (hd : zl.decompress data (mo+1)=.ok (o,d)) (ht : zl.unconsumedTail d=[])
    (hf : zl.flush d=.ok []) (h : o.length≤ mo) : decompressGzip zl data mo=.ok o := by
  unfold decompressGzip
  simp [hd,ht,hf,not_lt.mpr h]

/-- The value is right exactly if the input is one complete stream, is corrupt, or decompresses to
more than the limit. -/
theorem gzip_value_exact_iff (zlib : Decompressor σ) (data : Bytes) (maxOutput : ℕ) :
    Exact zlib data maxOutput ↔ Whole maxOutput (zlib.read data) := by
  by_cases hl : maxOutput<(zlib.read data).output.length
  · have he : Exact zlib data maxOutput := fun v hv =>
      absurd hv (decompressGzip_stopped zlib hl v)
    refine iff_of_true he ?_
    revert hl
    cases zlib.read data with
    | complete content rest => exact .inr
    | truncated output => exact id
    | corrupt output => exact fun _ => trivial
  · have hb := zlib.below data (maxOutput+1) (by omega)
    cases hr : zlib.read data with
    | complete content rest =>
      rw [hr] at hb hl
      obtain ⟨d,hd,ht,hf⟩ := hb
      have hg := decompressGzip_of_taken zlib hd ht hf (not_lt.mp hl)
      constructor
      · intro h
        obtain ⟨he,-⟩ := h content hg
        exact .inl (GzipReading.complete.inj (hr.symm.trans he)).2
      · rintro (rfl | hc) v hv
        · cases hg.symm.trans hv
          exact ⟨hr,not_lt.mp hl⟩
        · exact absurd hc hl
    | truncated output =>
      rw [hr] at hb hl
      obtain ⟨d,hd,ht,hf⟩ := hb
      have hg := decompressGzip_of_taken zlib hd ht hf (not_lt.mp hl)
      refine iff_of_false (fun h => ?_) hl
      cases hr.symm.trans (h output hg).1
    | corrupt output =>
      rw [hr] at hb
      obtain ⟨text,hd⟩ := hb
      refine iff_of_true (fun v hv => ?_) trivial
      simp [decompressGzip,hd] at hv

/-- `gzip.compress` of the one octet 65, in a stored block. -/
def sampleStream : Bytes :=
  [0x1f,0x8b,8,0,0,0,0,0,0,0xff,1,1,0,0xfe,0xff,65,0x8b,0x9e,0xd9,0xd3,1,0,0,0]

/-- What zlib reads in the stream, in the front of it and in the stream with octets behind it. -/
def sampleReading (data : Bytes) : GzipReading :=
  if startsWith data sampleStream then .complete [65] (data.drop sampleStream.length)
  else if startsWith sampleStream data then .truncated (if data.length<16 then [] else [65])
  else .corrupt []

def sampleDecompressor : Decompressor Bytes where
  read := sampleReading
  decompress data bound :=
    match sampleReading data with
    | .corrupt _ => .error "Error -3 while decompressing data: incorrect header check"
    | reading => .ok (reading.output.take bound,reading.output.drop bound)
  unconsumedTail d := d
  flush d := .ok d
  below data bound h := by
    have hd := List.drop_of_length_le h.le
    cases hr : sampleReading data with
    | corrupt output => exact ⟨_,rfl⟩
    | _ => simp_all
  stopped data bound r _ h := by
    cases hr : sampleReading data with
    | corrupt output => simp [hr] at h
    | _ =>
      simp only [hr] at h
      rw [← Except.ok.inj h]

/-- The stream without its checksum and length is taken for its content, and so is the stream with
an octet behind it. -/
theorem gzip_truncated_accepted : ¬ Exact sampleDecompressor (sampleStream.take 16) 10 ∧
    ¬ Exact sampleDecompressor (sampleStream++[66]) 10 := by
  have hr (data : Bytes) (h : sampleReading data≠.complete [65] []) (hg : decompressGzip
      sampleDecompressor data 10=.ok [65]) : ¬ Exact sampleDecompressor data 10 :=
    fun he => h (he [65] hg).1
  exact ⟨hr _ (by decide +kernel) rfl,hr _ (by decide +kernel) rfl⟩

end BlackBull.Grpc
