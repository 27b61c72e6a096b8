import RegionClient.Proofs.Resource.Step

/-!
# What is uploaded

The bytes that an upload comes to. A source has data and perhaps a failure behind it, and how its
data is cut into pieces shows nowhere. Main statement: an upload that is not valid is refused
without a look at its source; a valid one posts its content, or the data of its source up to the
length that was announced, unless the source fails before (`addFile_posts`).
-/

namespace RegionClient

/-! ## Reading -/

namespace Source

/-- The data of a source, whatever its pieces. -/
def data (s : Source) : Bytes := s.pieces.flatten

/-- What is read of data behind which there may be a failure: as much as the limit allows, and if
there is less, all of it or the failure. -/
def readData (data : Bytes) (failure : Option String) (limit : Nat) : Except String Bytes :=
  if limit ≤ data.length then .ok (data.take limit)
  else match failure with
    | none => .ok data
    | some e => .error e

private theorem readData_zero (data : Bytes) (failure : Option String) :
    readData data failure 0 = .ok [] := if_pos (Nat.zero_le _)

private theorem readData_append_of_le {piece : Bytes} {limit : Nat} (h : piece.length ≤ limit)
    (data : Bytes) (failure : Option String) :
    readData (piece ++ data) failure limit =
      (readData data failure (limit - piece.length)).map (piece ++ ·) := by
  have hlimit : limit ≤ (piece ++ data).length ↔ limit - piece.length ≤ data.length := by
    rw [List.length_append]
    omega
  unfold readData
  by_cases hdata : limit - piece.length ≤ data.length
  · rw [if_pos hdata, if_pos (hlimit.mpr hdata), List.take_append, List.take_of_length_le h]
    rfl
  · rw [if_neg hdata, if_neg (mt hlimit.mp hdata)]
    cases failure <;> rfl

private theorem readData_append_of_lt {piece : Bytes} {limit : Nat} (h : limit < piece.length)
    (data : Bytes) (failure : Option String) :
    readData (piece ++ data) failure limit = .ok (piece.take limit) := by
  have hlimit : limit ≤ (piece ++ data).length := by
    rw [List.length_append]
    omega
  unfold readData
  rw [if_pos hlimit, List.take_append_of_le_length (Nat.le_of_lt h)]

/-- Reading pieces is reading their data. -/
theorem readPieces_eq (failure : Option String) (limit : Nat) (pieces : List Bytes) :
    readPieces failure limit pieces = readData pieces.flatten failure limit := by
  induction pieces generalizing limit with
  | nil =>
    cases limit with
    | zero => exact (readData_zero _ failure).symm
    | succ limit => cases failure <;> rfl
  | cons piece pieces ih =>
    cases limit with
    | zero => exact (readData_zero _ failure).symm
    | succ limit =>
      rw [readPieces, List.flatten_cons, ih]
      by_cases h : piece.length ≤ limit + 1
      · rw [List.take_of_length_le h, readData_append_of_le h]
        cases readData pieces.flatten failure (limit + 1 - piece.length) <;> rfl
      · have hlt : limit + 1 < piece.length := Nat.lt_of_not_le h
        have htaken : (piece.take (limit + 1)).length = limit + 1 :=
          List.length_take_of_le (Nat.le_of_lt hlt)
        rw [htaken, Nat.sub_self, readData_zero, readData_append_of_lt hlt]
        exact congrArg Except.ok (List.append_nil _)

/-- Reading a source is reading its data. -/
theorem read_eq (s : Source) (limit : Nat) : s.read limit = readData s.data s.failure limit :=
  readPieces_eq s.failure limit s.pieces

end Source

/-! ## Valid uploads -/

namespace Upload

/-- An upload is valid if it has the name of a file, and either content, of no announced length, or
a source, of some. -/
structure IsValid (u : Upload) : Prop where
  named : u.filename ≠ ""
  noPath : '/' ∉ u.filename.toList
  held : (u.content.isSome ∧ u.source = none ∧ u.length = 0) ∨
    (u.content = none ∧ u.source.isSome ∧ u.length ≠ 0)

/-- An upload is found valid just if it is; otherwise it is found not valid. -/
theorem validate_cases (u : Upload) :
    (u.IsValid ∧ u.validate = .ok ()) ∨
      (¬ u.IsValid ∧ ∃ message, u.validate = .error (.notValid message)) := by
  unfold validate
  by_cases hpath : u.filename.toList.contains '/' = true
  · rw [if_pos hpath]
    exact .inr ⟨fun h ↦ h.noPath (List.contains_iff_mem.mp hpath), _, rfl⟩
  rw [if_neg hpath]
  by_cases hname : u.filename.isEmpty = true
  · rw [if_pos hname]
    exact .inr ⟨fun h ↦ h.named (String.isEmpty_iff.mp hname), _, rfl⟩
  rw [if_neg hname]
  -- What is left is a matter of content, source and length.
  have hvalid : u.IsValid ↔ (u.content.isSome ∧ u.source = none ∧ u.length = 0) ∨
      (u.content = none ∧ u.source.isSome ∧ u.length ≠ 0) :=
    ⟨IsValid.held, fun h ↦ ⟨mt String.isEmpty_iff.mpr hname, mt List.contains_iff_mem.mpr hpath, h⟩⟩
  rw [hvalid]
  cases u.content <;> cases u.source <;> by_cases hlength : u.length = 0 <;> simp [hlength]

/-- An upload is valid just if it is found so. -/
theorem isValid_iff {u : Upload} : u.IsValid ↔ u.validate = .ok () := by
  rcases u.validate_cases with ⟨hvalid, hok⟩ | ⟨hinvalid, message, herror⟩
  · exact ⟨fun _ ↦ hok, fun _ ↦ hvalid⟩
  · refine ⟨fun h ↦ absurd h hinvalid, fun hok ↦ ?_⟩
    cases herror.symm.trans hok

/-- The upload from another source, if it is from a source. -/
def fromSource (u : Upload) (source : Source) : Upload :=
  { u with source := u.source.map fun _ ↦ source }

private theorem validate_fromSource (u : Upload) (source : Source) :
    (u.fromSource source).validate = u.validate := by
  obtain ⟨filename, content, held, length⟩ := u
  cases content <;> cases held <;> rfl

private theorem take_fromSource_congr (u : Upload) {source source' : Source}
    (h : source.read u.length.toNat = source'.read u.length.toNat) :
    (u.fromSource source).take = (u.fromSource source').take := by
  have hbytes : (u.fromSource source).bytes = (u.fromSource source').bytes := by
    obtain ⟨filename, content, held, length⟩ := u
    cases content <;> cases held
    case none.some => exact congrArg (Except.mapError (Error.io "cannot read file content")) h
    all_goals rfl
  rw [take, take, validate_fromSource, validate_fromSource, hbytes]

/-- The request of an upload. -/
def request (u : Upload) (content : Bytes) : Request :=
  { path := "files/"
    op := some "create"
    params := ⟨[("filename", u.filename)]⟩
    file := some ⟨"file", content⟩ }

variable {σ : Type} (s : Session σ) (u : Upload) (run : Run σ)

/-- An upload posts content: it makes one call, with the content as its file, and what comes of it
is what comes of the answer. -/
structure Posts (content : Bytes) : Prop where
  calls : (s.addFile u run).2.calls = run.calls ++ [(.post, u.request content)]
  outcome : (s.addFile u run).1 =
    ((Session.bytesOf .post (u.request content)
      (s.channel .post (u.request content) run.world).1).mapError
        OperationClass.fileCreation.translate).map fun _ ↦ ()

variable {u}

private theorem addFile_of_error {e : Error} (h : u.take = .error e) :
    s.addFile u run = (.error e, run) := by
  rw [Session.addFile, h]
  rfl

private theorem addFile_of_ok {content : Bytes} (h : u.take = .ok content) :
    u.Posts s run content := by
  constructor
  · rw [Step.addFile_apply s h]
    exact s.calls_afterCall ..
  · rw [Step.addFile_apply s h]
    rfl

/-- The bytes of a valid upload with content are the content. -/
theorem take_of_content (h : u.IsValid) {content : Bytes} (hcontent : u.content = some content) :
    u.take = .ok content := by
  rw [take, isValid_iff.mp h, bytes, hcontent]
  rfl

/-- The bytes of a valid upload from a source are what is read of the data of the source. -/
theorem take_of_source (h : u.IsValid) {source : Source} (hsource : u.source = some source) :
    u.take = (Source.readData source.data source.failure u.length.toNat).mapError
      (.io "cannot read file content") := by
  have hcontent : u.content = none := by
    rcases h.held with ⟨-, hnone, -⟩ | ⟨hcontent, -, -⟩
    · cases hnone.symm.trans hsource
    · exact hcontent
  rw [take, isValid_iff.mp h, bytes, hcontent, hsource, ← source.read_eq]
  rfl

variable (u)

/-- An upload that is not valid is refused, whatever its source yields. One with content posts the
content. One from a source posts the data of the source up to the announced length, whatever is
behind that; if there is less, it posts all of it or, if the source fails, makes no call. How the
data is cut into pieces shows nowhere. -/
theorem addFile_posts :
    (¬ u.IsValid → ∃ message, s.addFile u run = (.error (.notValid message), run) ∧
      ∀ source, s.addFile (u.fromSource source) run = (.error (.notValid message), run)) ∧
    (u.IsValid → ∀ content, u.content = some content → u.Posts s run content) ∧
    (u.IsValid → ∀ source, u.source = some source →
      (u.length.toNat ≤ source.data.length →
        u.Posts s run (source.data.take u.length.toNat)) ∧
      (source.data.length < u.length.toNat → source.failure = none →
        u.Posts s run source.data) ∧
      ∀ e, source.data.length < u.length.toNat → source.failure = some e →
        s.addFile u run = (.error (.io "cannot read file content" e), run)) ∧
    ∀ source source' : Source, source.data = source'.data → source.failure = source'.failure →
      s.addFile (u.fromSource source) run = s.addFile (u.fromSource source') run := by
  refine ⟨fun h ↦ ?_, fun h content hcontent ↦ addFile_of_ok s run (take_of_content h hcontent),
    fun h source hsource ↦ ?_, fun source source' hdata hfailure ↦ ?_⟩
  · obtain ⟨hvalid, -⟩ | ⟨-, message, hinvalid⟩ := u.validate_cases
    · exact absurd hvalid h
    refine ⟨message, addFile_of_error s run ?_, fun source ↦ addFile_of_error s run ?_⟩
    · rw [take, hinvalid]
      rfl
    · rw [take, validate_fromSource, hinvalid]
      rfl
  · have htake := take_of_source h hsource
    unfold Source.readData at htake
    refine ⟨fun hlong ↦ ?_, fun hshort hnone ↦ ?_, fun e hshort hfailure ↦ ?_⟩
    · rw [if_pos hlong] at htake
      exact addFile_of_ok s run htake
    · rw [if_neg (Nat.not_le_of_lt hshort), hnone] at htake
      exact addFile_of_ok s run htake
    · rw [if_neg (Nat.not_le_of_lt hshort), hfailure] at htake
      exact addFile_of_error s run htake
  · have hread : source.read u.length.toNat = source'.read u.length.toNat := by
      rw [source.read_eq, source'.read_eq, hdata, hfailure]
    rw [Session.addFile, Session.addFile, take_fromSource_congr u hread]
    rfl

end Upload

end RegionClient
