import RegionClient.Proofs.Text.Form
import RegionClient.Request.Credentials

/-!
# Keys and their authorizations

What an API key is made of, and what a server reads in the authorization made from it. The fields of
an authorization stand between quotes with commas between them, and a server has no other way to
read them (`Presents.unique`). Main statement: a key is accepted if it has two colons, and its
authorization presents eight fields, whatever characters the key holds; decoded, they tell the key
(`authorization_tells`).
-/

namespace RegionClient

open Text

namespace Credentials

/-! ## Keys -/

/-- The key with these parts. -/
def apiKey (c : Credentials) : String := c.consumerKey ++ ":" ++ c.tokenKey ++ ":" ++ c.tokenSecret

private theorem toList_apiKey (c : Credentials) : c.apiKey.toList =
    c.consumerKey.toList ++ ':' :: (c.tokenKey.toList ++ ':' :: c.tokenSecret.toList) := by
  simp [apiKey]

/-- The credentials that are read from a key are its parts, and no part holds a colon. -/
theorem parse_eq_ok_iff {key : String} {c : Credentials} :
    parse key = .ok c ↔ key = c.apiKey ∧ ':' ∉ c.consumerKey.toList ∧ ':' ∉ c.tokenKey.toList ∧
      ':' ∉ c.tokenSecret.toList := by
  constructor
  · intro h
    unfold parse at h
    split at h
    · next consumer token secret hpieces =>
      obtain rfl := Except.ok.inj h
      have hpiece : ∀ piece ∈ [consumer, token, secret], ':' ∉ piece := by
        intro piece hmem
        exact separator_notMem_of_mem_splitOn (hpieces ▸ hmem)
      refine ⟨?_, by simpa using hpiece⟩
      have hjoin := join_splitOn ':' key.toList
      rw [hpieces] at hjoin
      rw [← String.toList_inj, toList_apiKey, ← hjoin]
      simp [join]
    · cases h
  · rintro ⟨rfl, hconsumer, htoken, hsecret⟩
    rw [parse, toList_apiKey, splitOn_append_cons hconsumer, splitOn_append_cons htoken,
      splitOn_of_notMem hsecret]
    simp

/-- A key is accepted if it has two colons. -/
theorem exists_parse_iff (key : String) :
    (∃ c, parse key = .ok c) ↔ key.toList.count ':' = 2 := by
  have hlength := length_splitOn ':' key.toList
  unfold parse
  split
  · next hpieces =>
    rw [hpieces] at hlength
    simp only [List.length_cons, List.length_nil] at hlength
    exact iff_of_true ⟨_, rfl⟩ (by omega)
  · next hpieces =>
    refine iff_of_false nofun fun hcount ↦ ?_
    rw [hcount] at hlength
    obtain ⟨consumer, token, secret, hthree⟩ := List.length_eq_three.mp hlength
    exact hpieces _ _ _ hthree

/-- Any other key is refused with the number of its parts, one more than its colons. -/
theorem parse_of_count_ne {key : String} (h : key.toList.count ':' ≠ 2) :
    parse key = .error (.invalidCredentials ("API key must have 3 parts separated by ':', got " ++
      toString (key.toList.count ':' + 1))) := by
  rw [← length_splitOn]
  unfold parse
  split
  · next consumer token secret hpieces =>
    exact absurd ((exists_parse_iff key).mp ⟨_, by rw [parse, hpieces]⟩) h
  · rfl

/-! ## Fields of an authorization -/

/-- A field as it stands in an authorization. -/
def quoteField (field : String × String) : List Char :=
  field.1.toList ++ '=' :: '\x22' :: (field.2.toList ++ ['\x22'])

/-- An authorization presents fields: each is a name, an equals sign and a value between quotes, and
a comma and a space stand between fields. The equals sign ends the name, and the next quote the
value. -/
structure Presents (authorization : String) (fields : List (String × String)) : Prop where
  text : authorization.toList = "OAuth ".toList ++ [',', ' '].intercalate (fields.map quoteField)
  names : ∀ field ∈ fields, '=' ∉ field.1.toList
  values : ∀ field ∈ fields, '\x22' ∉ field.2.toList

private theorem quoteField_append_inj {field field' : String × String} {rest rest' : List Char}
    (hname : '=' ∉ field.1.toList) (hname' : '=' ∉ field'.1.toList)
    (hvalue : '\x22' ∉ field.2.toList) (hvalue' : '\x22' ∉ field'.2.toList)
    (h : quoteField field ++ rest = quoteField field' ++ rest') : field = field' ∧ rest = rest' := by
  simp only [quoteField, List.append_assoc, List.cons_append, List.nil_append] at h
  obtain ⟨hnames, h⟩ := append_separator_inj hname hname' h
  obtain ⟨hvalues, hrest⟩ := append_separator_inj hvalue hvalue' (List.cons.inj h).2
  exact ⟨Prod.ext (String.toList_inj.mp hnames) (String.toList_inj.mp hvalues), hrest⟩

private theorem eq_of_intercalate_quoteField {fields fields' : List (String × String)}
    (hnames : ∀ field ∈ fields, '=' ∉ field.1.toList)
    (hnames' : ∀ field ∈ fields', '=' ∉ field.1.toList)
    (hvalues : ∀ field ∈ fields, '\x22' ∉ field.2.toList)
    (hvalues' : ∀ field ∈ fields', '\x22' ∉ field.2.toList)
    (h : [',', ' '].intercalate (fields.map quoteField) =
      [',', ' '].intercalate (fields'.map quoteField)) : fields = fields' := by
  -- A field and what stands behind it, which is nothing or begins with the comma.
  have hcons : ∀ (field : String × String) (fields : List (String × String)),
      [',', ' '].intercalate ((field :: fields).map quoteField) = quoteField field ++
        if fields = [] then [] else ',' :: ' ' :: [',', ' '].intercalate (fields.map quoteField) := by
    intro field fields
    cases fields <;> simp
  have hne : ∀ field, quoteField field ≠ [] := fun field ↦ by simp [quoteField]
  induction fields generalizing fields' with
  | nil =>
    cases fields' with
    | nil => rfl
    | cons field' fields' =>
      rw [hcons] at h
      exact absurd (List.append_eq_nil_iff.mp h.symm).1 (hne field')
  | cons field fields ih =>
    cases fields' with
    | nil =>
      rw [hcons] at h
      exact absurd (List.append_eq_nil_iff.mp h).1 (hne field)
    | cons field' fields' =>
      rw [hcons, hcons] at h
      rw [List.forall_mem_cons] at hnames hnames' hvalues hvalues'
      obtain ⟨hfield, hrest⟩ :=
        quoteField_append_inj hnames.1 hnames'.1 hvalues.1 hvalues'.1 h
      by_cases hnil : fields = [] <;> by_cases hnil' : fields' = []
      · rw [hfield, hnil, hnil']
      · simp [hnil, hnil'] at hrest
      · simp [hnil, hnil'] at hrest
      · simp only [if_neg hnil, if_neg hnil', List.cons.injEq, true_and] at hrest
        rw [hfield, ih hnames.2 hnames'.2 hvalues.2 hvalues'.2 hrest]

/-- An authorization presents its fields in one way. -/
theorem Presents.unique {authorization : String} {fields fields' : List (String × String)}
    (h : Presents authorization fields) (h' : Presents authorization fields') : fields = fields' :=
  eq_of_intercalate_quoteField h.names h'.names h.values h'.values
    (List.append_cancel_left (h.text.symm.trans h'.text))

/-! ## The authorization of a key -/

/-- The fields of an authorization with their values form-encoded. -/
def encodedFields (c : Credentials) (stamp : Stamp) : List (String × String) :=
  (c.fields stamp).map fun field ↦ (field.1, String.ofList (Form.encodeText field.2.toList))

private theorem notMem_of_mem_encodedFields {c : Credentials} {stamp : Stamp}
    {field : String × String} (h : field ∈ c.encodedFields stamp) {mark : Char}
    (hmark : mark ∈ ['\x22', ',', '\\']) :
    mark ∉ field.2.toList := by
  obtain ⟨field, -, rfl⟩ := List.mem_map.mp h
  rw [String.toList_ofList]
  intro hmem
  have hno : ∀ mark ∈ ['\x22', ',', '\\'],
      ¬ (Form.isPlain mark = true ∨ mark = '+' ∨ mark = '%') := by
    simp [Form.isPlain]
  exact hno mark hmark (Form.of_mem_encodeText hmem)

/-- The encoded fields decode to the fields. -/
theorem decode_encodedFields (c : Credentials) (stamp : Stamp) :
    (c.encodedFields stamp).map (fun field ↦ (field.1, Form.decodeText field.2.toList)) =
      c.fields stamp := by
  rw [encodedFields, List.map_map]
  refine (List.map_congr_left fun field _ ↦ ?_).trans (List.map_id _)
  simp [Form.decodeText_encodeText]

private theorem map_printField (c : Credentials) (stamp : Stamp) :
    (c.fields stamp).map printField = (c.encodedFields stamp).map quoteField := by
  rw [encodedFields, List.map_map]
  refine List.map_congr_left fun field _ ↦ ?_
  simp [printField, quoteField]

private theorem notMem_name_of_mem_encodedFields {c : Credentials} {stamp : Stamp}
    {field : String × String} (h : field ∈ c.encodedFields stamp) : '=' ∉ field.1.toList := by
  have hnames : (c.encodedFields stamp).map Prod.fst = ["realm", "oauth_consumer_key",
      "oauth_token", "oauth_signature_method", "oauth_signature", "oauth_nonce",
      "oauth_timestamp", "oauth_version"] := rfl
  have hno : ∀ name ∈ (c.encodedFields stamp).map Prod.fst, '=' ∉ name.toList := by
    rw [hnames]
    decide
  exact hno field.1 (List.mem_map_of_mem h)

/-- An authorization presents the encoded fields. -/
theorem presents_encodedFields (c : Credentials) (stamp : Stamp) :
    Presents (c.authorization stamp) (c.encodedFields stamp) := by
  have htext : (c.authorization stamp).toList =
      "OAuth ".toList ++ [',', ' '].intercalate ((c.encodedFields stamp).map quoteField) := by
    unfold authorization
    rw [String.toList_ofList, map_printField]
  exact ⟨htext, fun _ hmem ↦ notMem_name_of_mem_encodedFields hmem,
    fun _ hmem ↦ notMem_of_mem_encodedFields hmem List.mem_cons_self⟩

/-- The authorization tells the credentials. -/
theorem authorization_inj {c c' : Credentials} {stamp : Stamp}
    (h : c.authorization stamp = c'.authorization stamp) : c = c' := by
  have hfields : c.fields stamp = c'.fields stamp := by
    rw [← decode_encodedFields, ← decode_encodedFields]
    congr 1
    exact (presents_encodedFields c stamp).unique (h ▸ presents_encodedFields c' stamp)
  simp only [fields, List.cons.injEq, Prod.mk.injEq, true_and, and_true] at hfields
  obtain ⟨hconsumer, htoken, hsecret⟩ := hfields
  cases c
  cases c'
  simp_all

/-- What an authorization tells: read in the only way there is, it has eight fields, whose values
hold no quote, comma or backslash and decode to the parts of the key and what does not depend on
it. -/
def Tells (authorization : String) (c : Credentials) (stamp : Stamp) : Prop :=
  ∃ fields, (∀ read, Presents authorization read ↔ read = fields) ∧ fields.length = 8 ∧
    (∀ field ∈ fields, '\x22' ∉ field.2.toList ∧ ',' ∉ field.2.toList ∧ '\\' ∉ field.2.toList) ∧
    fields.map (fun field ↦ (field.1, Form.decodeText field.2.toList)) = [
      ("realm", ""), ("oauth_consumer_key", c.consumerKey), ("oauth_token", c.tokenKey),
      ("oauth_signature_method", "PLAINTEXT"), ("oauth_signature", "&" ++ c.tokenSecret),
      ("oauth_nonce", stamp.nonce), ("oauth_timestamp", stamp.timestamp), ("oauth_version", "1.0")]

/-- A key is accepted if it has two colons; any other is refused with the number of its parts. The
authorization of a key tells its parts, so that under one stamp different keys have different
authorizations. -/
theorem authorization_tells (key : String) :
    ((∃ c, parse key = .ok c) ↔ key.toList.count ':' = 2) ∧
    (key.toList.count ':' ≠ 2 → parse key = .error (.invalidCredentials
      ("API key must have 3 parts separated by ':', got " ++
        toString (key.toList.count ':' + 1)))) ∧
    ∀ c, parse key = .ok c →
      key = c.consumerKey ++ ":" ++ c.tokenKey ++ ":" ++ c.tokenSecret ∧
      ∀ stamp, Tells (c.authorization stamp) c stamp ∧
        ∀ key' c', parse key' = .ok c' → c'.authorization stamp = c.authorization stamp →
          key' = key := by
  refine ⟨exists_parse_iff key, parse_of_count_ne, fun c hparse ↦ ?_⟩
  have hkey : key = c.apiKey := (parse_eq_ok_iff.mp hparse).1
  refine ⟨hkey, fun stamp ↦ ⟨⟨c.encodedFields stamp, fun read ↦ ?_, rfl, fun field hmem ↦ ?_,
    decode_encodedFields c stamp⟩, fun key' c' hparse' hsame ↦ ?_⟩⟩
  · have hpresents := presents_encodedFields c stamp
    exact ⟨fun hread ↦ hread.unique hpresents, fun hread ↦ hread ▸ hpresents⟩
  · have hno : ∀ mark ∈ ['\x22', ',', '\\'], mark ∉ field.2.toList :=
      fun mark hmark ↦ notMem_of_mem_encodedFields hmem hmark
    simpa using hno
  · rw [hkey, (parse_eq_ok_iff.mp hparse').1, authorization_inj hsame]

/-- A key with quotes, commas, backslashes and characters outside ASCII is told, and none of its
parts ends a field. -/
theorem authorization_tells_marks :
    ∃ c, parse "a\", x=\"b:\\é:&\n" = .ok c ∧ ∀ stamp, Tells (c.authorization stamp) c stamp := by
  obtain ⟨haccepted, -, htells⟩ := authorization_tells "a\", x=\"b:\\é:&\n"
  obtain ⟨c, hparse⟩ := haccepted.mpr (by decide)
  exact ⟨c, hparse, fun stamp ↦ ((htells c hparse).2 stamp).1⟩

end Credentials

end RegionClient
