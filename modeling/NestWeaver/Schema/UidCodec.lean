import NestWeaver.Schema.Uid

/-!
# Graph UIDs are read back

The UID of an entity renders its components (`uid_eq_render`).  The parser accepts a string with these
components exactly when they are canonical, and the string is then their rendering
(`parseCanonicalEntityUid_render`, `parseCanonicalEntityUid_eq_some`).
-/

set_option linter.all false

namespace NestWeaver
namespace Uid

open Strings RepoUrl

/-! ## Components -/

lemma not_mem_of_all {p : Char → Bool} {value : String} {c : Char} (hc : p c = false)
    (h : value.toList.all p = true) : c ∉ value.toList := by
  intro hmem
  have hp := List.all_eq_true.mp h c hmem
  rw [hc] at hp
  exact Bool.false_ne_true hp

lemma colon_not_mem_hex {value : String} (h : isLowercase12Hex value = true) :
    ':' ∉ value.toList :=
  not_mem_of_all (by decide) (Bool.and_eq_true_iff.mp h).2

lemma colon_not_mem_content {value : String} (h : contentOk value = true) : ':' ∉ value.toList :=
  not_mem_of_all (by decide) (Bool.and_eq_true_iff.mp h).2

lemma colon_not_mem_line {value : String} (h : isCanonicalU32 value = true) : ':' ∉ value.toList :=
  not_mem_of_all (by decide) (Bool.and_eq_true_iff.mp h).1

lemma isCanonicalU32_repr (line : UInt32) : isCanonicalU32 line.toNat.repr = true := by
  have hdigits : ∀ c ∈ Nat.toDigits 10 line.toNat, c.isDigit = true :=
    fun c hc => Nat.isDigit_of_mem_toDigits (by decide) (by decide) hc
  have hall : (Nat.toDigits 10 line.toNat).all Char.isDigit = true := List.all_eq_true.mpr hdigits
  have hsign : stripPrefix ['+'] (Nat.toDigits 10 line.toNat) = none := by
    rw [stripPrefix_eq_none]
    intro h
    exact absurd (hdigits '+' (h.subset List.mem_cons_self)) (by decide)
  have hsize : line.toNat < UInt32.size := line.toNat_lt_size
  have hparse : parseU32 (Nat.toDigits 10 line.toNat) = some line.toNat := by
    rw [parseU32, hsign, Option.getD_none, Nat.ofDigitChars_ten_toDigits,
      if_pos ⟨Nat.toDigits_ne_nil, hall, hsize⟩]
  rw [isCanonicalU32, Nat.toList_repr, hparse, hall]
  simp

/-! ## Rendering -/

lemma toList_intercalate_colon (parts : List String) :
    (":".intercalate parts).toList = [':'].intercalate (parts.map String.toList) := by
  rw [String.toList_intercalate]
  rfl

/-- Parts without a colon are read back. -/
lemma splitOn_intercalate_colon {parts : List String} (hne : parts ≠ [])
    (h : ∀ part ∈ parts, ':' ∉ part.toList) :
    ((":".intercalate parts).toList.splitOn ':').map String.ofList = parts := by
  have hparts : ∀ l ∈ parts.map String.toList, ':' ∉ l := by
    intro l hl
    obtain ⟨part, hpart, rfl⟩ := List.mem_map.mp hl
    exact h part hpart
  rw [toList_intercalate_colon, List.splitOn_intercalate ':' hparts (by simpa using hne), List.map_map]
  simp

namespace CanonicalEntityUid

def instanceId : CanonicalEntityUid → String
  | .note instanceId .. => instanceId
  | .tag instanceId .. => instanceId
  | .heading instanceId .. => instanceId
  | .«section» instanceId .. => instanceId
  | .vault instanceId .. => instanceId
  | .symbol instanceId .. => instanceId
  | .repo instanceId .. => instanceId
  | .file instanceId .. => instanceId
  | .service instanceId .. => instanceId

/-- The components that are line numbers. -/
def lines : CanonicalEntityUid → List String
  | .heading _ _ _ _ line => [line]
  | .«section» _ _ _ line _ => [line]
  | .symbol _ _ _ _ line => [line]
  | _ => []

/-- The components that are content hashes. -/
def contents : CanonicalEntityUid → List String
  | .«section» _ _ _ _ content => [content]
  | _ => []

/-- The parser's conditions. -/
structure Canonical (uid : CanonicalEntityUid) : Prop where
  valid : validUidInstance uid.instanceId = true
  hashes : ∀ h ∈ uid.hashes, isLowercase12Hex h = true
  lines : ∀ line ∈ uid.lines, isCanonicalU32 line = true
  contents : ∀ content ∈ uid.contents, contentOk content = true

variable {c c' : CanonicalEntityUid}

lemma parts_ne_nil (c : CanonicalEntityUid) : c.parts ≠ [] := by
  cases c <;> exact List.cons_ne_nil _ _

lemma render_toList (c : CanonicalEntityUid) :
    c.render.toList = [':'].intercalate (c.parts.map String.toList) :=
  toList_intercalate_colon c.parts

lemma splitOn_render (h : ∀ part ∈ c.parts, ':' ∉ part.toList) :
    (c.render.toList.splitOn ':').map String.ofList = c.parts :=
  splitOn_intercalate_colon c.parts_ne_nil h

lemma render_of_splitOn {uid : String}
    (h : (uid.toList.splitOn ':').map String.ofList = c.parts) : c.render = uid := by
  have hparts : c.parts.map String.toList = uid.toList.splitOn ':' := by
    rw [← h, List.map_map]
    simp
  rw [← String.toList_inj, render_toList, hparts, List.intercalate_splitOn]

lemma Canonical.colon_not_mem (h : c.Canonical) (hinstance : ':' ∉ c.instanceId.toList) :
    ∀ part ∈ c.parts, ':' ∉ part.toList := by
  obtain ⟨-, hhashes, hlines, hcontents⟩ := h
  have hhex := fun part hpart => colon_not_mem_hex (hhashes part hpart)
  have hline := fun part hpart => colon_not_mem_line (hlines part hpart)
  have hcontent := fun part hpart => colon_not_mem_content (hcontents part hpart)
  cases c <;>
    simp only [parts, CanonicalEntityUid.hashes, CanonicalEntityUid.lines,
      CanonicalEntityUid.contents, CanonicalEntityUid.instanceId, List.forall_mem_cons,
      List.not_mem_nil, false_implies, implies_true, and_true] at *
  all_goals simp [*]

end CanonicalEntityUid

open CanonicalEntityUid

variable {uid : String} {c c' : CanonicalEntityUid}

/-- **Canonical components are read back.** -/
lemma parseCanonicalEntityUid_render (h : c.Canonical) (hinstance : ':' ∉ c.instanceId.toList) :
    parseCanonicalEntityUid c.render = some c := by
  rw [parseCanonicalEntityUid, splitOn_render (h.colon_not_mem hinstance)]
  obtain ⟨hvalid, hhashes, hlines, hcontents⟩ := h
  cases c <;>
    simp only [CanonicalEntityUid.hashes, CanonicalEntityUid.lines, CanonicalEntityUid.contents,
      CanonicalEntityUid.instanceId, List.forall_mem_cons] at hvalid hhashes hlines hcontents <;>
    exact if_pos (by simp [*])

/-- **What is accepted is canonical**, and its rendering is what was read. -/
lemma parseCanonicalEntityUid_eq_some (h : parseCanonicalEntityUid uid = some c) :
    c.Canonical ∧ c.render = uid := by
  rw [parseCanonicalEntityUid] at h
  split at h <;> first | cases h | skip
  all_goals
    rename_i hparts
    split_ifs at h with hvalid
    obtain rfl := Option.some.inj h
    simp only [Bool.and_eq_true] at hvalid
    refine ⟨⟨?_, ?_, ?_, ?_⟩, render_of_splitOn hparts⟩ <;>
      simp [CanonicalEntityUid.hashes, CanonicalEntityUid.lines, CanonicalEntityUid.contents,
        CanonicalEntityUid.instanceId, hvalid]

/-! ## Entities -/

section Entities

variable {truncatedHash toLowercase : String → String} {e e' : Entity}

/-- **The UID of an entity** renders its components. -/
lemma uid_eq_render (e : Entity) :
    e.uid truncatedHash toLowercase = (e.components truncatedHash toLowercase).render := by
  rw [← String.toList_inj]
  cases e <;>
    simp [Entity.uid, Entity.components, Entity.identity, mapHashes, render, parts, repoUid, fileUid,
      serviceUid, symbolUid, vaultUid, noteUid, tagUid, headingUid, sectionUid,
      String.intercalate_cons_cons]

lemma instanceId_components (e : Entity) :
    (e.components truncatedHash toLowercase).instanceId = e.instanceId := by cases e <;> rfl

variable (hhex : ∀ s, isLowercase12Hex (truncatedHash s) = true)

include hhex in
lemma canonical_components (hvalid : validUidInstance e.instanceId = true)
    (hcontent : e.ContentShort) : (e.components truncatedHash toLowercase).Canonical := by
  refine ⟨instanceId_components e ▸ hvalid, ?_, ?_, ?_⟩
  · cases e <;> simp [Entity.components, Entity.identity, mapHashes, CanonicalEntityUid.hashes, hhex]
  · cases e <;> simp [Entity.components, Entity.identity, mapHashes, CanonicalEntityUid.lines,
      isCanonicalU32_repr]
  · cases e <;> simp [Entity.components, Entity.identity, mapHashes, CanonicalEntityUid.contents]
    exact hcontent

include hhex in
/-- **The UID of an entity is read back**, unless it is a section whose content hash is too long. -/
lemma parseCanonicalEntityUid_uid (hinstance : ValidInstance e.instanceId) :
    parseCanonicalEntityUid (e.uid truncatedHash toLowercase) =
      some (e.components truncatedHash toLowercase) ↔ e.ContentShort := by
  constructor
  · intro h
    have hcontents := (parseCanonicalEntityUid_eq_some h).1.contents
    cases e with
    | «section» _ _ _ _ contentHashShort => exact hcontents contentHashShort List.mem_cons_self
    | _ => exact True.intro
  · intro hcontent
    rw [uid_eq_render]
    refine parseCanonicalEntityUid_render (canonical_components hhex hinstance.valid hcontent) ?_
    rw [instanceId_components]
    exact hinstance.noColon

/-- No domain prefix is a prefix of another. -/
lemma eq_of_isPrefix {kind kind' : UidKind} {rest : List Char}
    (h : kind'.domainPrefix.toList <+: kind.domainPrefix.toList ++ rest) : kind' = kind := by
  have hprefixes : ∀ kind kind' : UidKind,
      kind'.domainPrefix.toList <+: kind.domainPrefix.toList → kind' = kind := by
    intro kind kind'
    cases kind <;> cases kind' <;> decide
  obtain hshort | hlong := List.prefix_or_prefix_of_prefix h (List.prefix_append _ rest)
  · exact hprefixes kind kind' hshort
  · exact (hprefixes kind' kind hlong).symm

lemma of_eq_some {kind : UidKind} {rest : List Char}
    (h : uid.toList = kind.domainPrefix.toList ++ rest) : UidKind.of uid = some kind := by
  have hfind : ∀ kind' : UidKind,
      kind'.domainPrefix.toList.isPrefixOf uid.toList = decide (kind' = kind) := by
    intro kind'
    rw [Bool.eq_iff_iff, List.isPrefixOf_iff_prefix, decide_eq_true_eq, h]
    constructor
    · exact eq_of_isPrefix
    · rintro rfl
      exact List.prefix_append _ _
  simp only [UidKind.of, hfind]
  cases kind <;> decide

/-- The kind of an entity is the domain of its UID. -/
lemma of_uid (e : Entity) : UidKind.of (e.uid truncatedHash toLowercase) =
    some (e.components truncatedHash toLowercase).kind := by
  have hpre : ∃ rest, (e.uid truncatedHash toLowercase).toList =
      (e.components truncatedHash toLowercase).kind.domainPrefix.toList ++ rest := by
    cases e <;>
      simp only [Entity.uid, repoUid, fileUid, serviceUid, symbolUid, vaultUid, noteUid, tagUid,
        headingUid, sectionUid, String.toList_append, List.append_assoc] <;>
      exact ⟨_, rfl⟩
  obtain ⟨rest, hrest⟩ := hpre
  exact of_eq_some hrest

include hhex in
/-- **A symbol names its repository.** -/
lemma repoUidOfSymbolUid_symbolUid (instanceId url filePath name : String) (line : UInt32) :
    repoUidOfSymbolUid (symbolUid truncatedHash (repoUid truncatedHash instanceId url) filePath name
      line) = some (repoUid truncatedHash instanceId url) := by
  have hline := colon_not_mem_line (isCanonicalU32_repr line)
  have hname := colon_not_mem_hex (hhex name)
  have hpath := colon_not_mem_hex (hhex filePath)
  have huid : (symbolUid truncatedHash (repoUid truncatedHash instanceId url) filePath name line).toList =
      "sym:".toList ++ ((((repoUid truncatedHash instanceId url).toList ++ ':' ::
        (truncatedHash filePath).toList) ++ ':' :: (truncatedHash name).toList) ++ ':' ::
          line.toNat.repr.toList) := by simp [symbolUid]
  have hrepo : "repo:".toList.isPrefixOf (repoUid truncatedHash instanceId url).toList = true := by
    rw [List.isPrefixOf_iff_prefix, repoUid, String.toList_append, String.toList_append,
      String.toList_append, List.append_assoc, List.append_assoc]
    exact List.prefix_append _ _
  rw [repoUidOfSymbolUid, huid, stripPrefix_append]
  simp only [Option.bind_eq_bind, Option.bind_some]
  rw [rsplitOnce_append hline]
  simp only [Option.bind_some]
  rw [rsplitOnce_append hname]
  simp only [Option.bind_some]
  rw [rsplitOnce_append hpath]
  simp only [Option.bind_some]
  rw [if_pos hrepo, String.ofList_toList]

include hhex in
/-- **A heading names its note.** -/
lemma noteUidOfHeading_headingUid (instanceId rootPath relPath slug : String) (line : UInt32) :
    noteUidOfHeading (headingUid truncatedHash
      (noteUid truncatedHash (vaultUid truncatedHash instanceId rootPath) relPath) slug line) =
        some (noteUid truncatedHash (vaultUid truncatedHash instanceId rootPath) relPath) := by
  have hline := colon_not_mem_line (isCanonicalU32_repr line)
  have hslug := colon_not_mem_hex (hhex slug)
  set note := noteUid truncatedHash (vaultUid truncatedHash instanceId rootPath) relPath with hnote
  have huid : (headingUid truncatedHash note slug line).toList =
      "head:".toList ++ ((note.toList ++ ':' :: (truncatedHash slug).toList) ++ ':' ::
        line.toNat.repr.toList) := by simp [headingUid]
  have hne : note.toList ≠ [] := by simp [hnote, noteUid]
  rw [noteUidOfHeading, huid, stripPrefix_append]
  simp only [Option.bind_eq_bind, Option.bind_some]
  rw [rsplitOnce_append hline]
  simp only [Option.bind_some]
  rw [rsplitOnce_append hslug]
  simp only [Option.bind_some]
  rw [if_neg hne, String.ofList_toList]

/-! ## Separation -/

lemma length_parts_congr (hkind : c.kind = c'.kind) : c.parts.length = c'.parts.length := by
  cases c <;> cases c' <;> simp only [kind, reduceCtorEq] at hkind <;> rfl

lemma eq_of_parts (hkind : c.kind = c'.kind) (h : c.parts = c'.parts) : c = c' := by
  cases c <;> cases c' <;> simp only [kind, reduceCtorEq] at hkind <;> simpa [parts] using h

lemma mapHashes_inj {f : String → String} (hf : ∀ a ∈ c.hashes, ∀ b ∈ c'.hashes, f a = f b → a = b)
    (h : c.mapHashes f = c'.mapHashes f) : c = c' := by
  have hmap : ∀ c : CanonicalEntityUid, (c.mapHashes f).kind = c.kind := by
    intro c
    cases c <;> rfl
  have hkind : c.kind = c'.kind := by rw [← hmap c, h, hmap]
  cases c <;> cases c' <;> simp only [kind, reduceCtorEq] at hkind <;>
    simp only [mapHashes, note.injEq, tag.injEq, heading.injEq, section.injEq, vault.injEq,
      symbol.injEq, repo.injEq, file.injEq, service.injEq] at h ⊢ <;>
    simp_all [CanonicalEntityUid.hashes]

/-- A part without a colon is split off. -/
lemma splitOn_intercalate_append {front : List String} {last : String}
    (h : ∀ part ∈ front, ':' ∉ part.toList) :
    ([':'].intercalate ((front ++ [last]).map String.toList)).splitOn ':' =
      front.map String.toList ++ last.toList.splitOn ':' := by
  induction front with
  | nil => simp [List.intercalate]
  | cons part front ih =>
    rw [List.forall_mem_cons] at h
    have hcons : [':'].intercalate ((part :: front ++ [last]).map String.toList) =
        part.toList ++ ':' :: [':'].intercalate ((front ++ [last]).map String.toList) := by
      cases front <;> simp [List.intercalate]
    rw [hcons, List.splitOn_append_cons_self_of_not_mem h.1, ih h.2]
    rfl

/-- The last part may hold colons. -/
lemma eq_of_intercalate_concat {front front' : List String} {last last' : String}
    (h : ∀ part ∈ front, ':' ∉ part.toList) (h' : ∀ part ∈ front', ':' ∉ part.toList)
    (hlength : front.length = front'.length)
    (heq : ":".intercalate (front ++ [last]) = ":".intercalate (front' ++ [last'])) :
    front = front' ∧ last = last' := by
  have hsplit := congrArg (fun text : String => text.toList.splitOn ':') heq
  simp only [toList_intercalate_colon] at hsplit
  rw [splitOn_intercalate_append h, splitOn_intercalate_append h'] at hsplit
  obtain ⟨hfront, hlast⟩ := List.append_inj hsplit (by simp [hlength])
  have hlast := congrArg [':'].intercalate hlast
  rw [List.intercalate_splitOn, List.intercalate_splitOn, String.toList_inj] at hlast
  exact ⟨List.map_injective_iff.mpr (fun _ _ => String.toList_inj.mp) hfront, hlast⟩

lemma render_inj (h : ∀ part ∈ c.parts.dropLast, ':' ∉ part.toList)
    (h' : ∀ part ∈ c'.parts.dropLast, ':' ∉ part.toList) (hkind : c.kind = c'.kind)
    (hrender : c.render = c'.render) : c = c' := by
  have hlength := length_parts_congr hkind
  have hparts := List.dropLast_append_getLast c.parts_ne_nil
  have hparts' := List.dropLast_append_getLast c'.parts_ne_nil
  rw [render, render, ← hparts, ← hparts'] at hrender
  obtain ⟨hfront, hlast⟩ := eq_of_intercalate_concat h h' (by simp [hlength]) hrender
  refine eq_of_parts hkind ?_
  rw [← hparts, ← hparts', hfront, hlast]

include hhex in
lemma colon_not_mem_components (hinstance : ValidInstance e.instanceId) :
    ∀ part ∈ (e.components truncatedHash toLowercase).parts.dropLast, ':' ∉ part.toList := by
  have hnoColon := hinstance.noColon
  have hhash := fun text => colon_not_mem_hex (hhex text)
  have hline : ∀ line : UInt32, ':' ∉ Nat.toDigits 10 line.toNat :=
    fun line => Nat.toList_repr ▸ colon_not_mem_line (isCanonicalU32_repr line)
  cases e <;> simp only [Entity.instanceId] at hnoColon <;>
    simp [Entity.components, Entity.identity, mapHashes, parts, hnoColon, hhash, hline]

include hhex in
lemma identity_eq_of_uid_eq (hinstance : ValidInstance e.instanceId)
    (hinstance' : ValidInstance e'.instanceId)
    (hhash : ∀ a ∈ (e.identity toLowercase).hashes, ∀ b ∈ (e'.identity toLowercase).hashes,
      NoCollision truncatedHash a b)
    (huid : e.uid truncatedHash toLowercase = e'.uid truncatedHash toLowercase) :
    e.identity toLowercase = e'.identity toLowercase := by
  have hkind : (e.components truncatedHash toLowercase).kind =
      (e'.components truncatedHash toLowercase).kind := by
    rw [← Option.some_inj, ← of_uid, ← of_uid, huid]
  rw [uid_eq_render, uid_eq_render] at huid
  exact mapHashes_inj hhash (render_inj (colon_not_mem_components hhex hinstance)
    (colon_not_mem_components hhex hinstance') hkind huid)

end Entities

/-- **The UID codec**, for a hash of 12 hex digits and a valid instance.  The UID of an entity has the
entity's kind, and it is parsed into the entity's components unless the entity is a section whose content
hash does not have 6 hex digits.  What is parsed renders to what was read.  A symbol names its repository, and a
heading its note.  Entities with one UID have the same identity, as far as the hash does not collide on
their components. -/
theorem uid_codec (truncatedHash toLowercase : String → String)
    (hhex : ∀ s, isLowercase12Hex (truncatedHash s) = true) :
    (∀ e : Entity, ValidInstance e.instanceId →
      UidKind.of (e.uid truncatedHash toLowercase) =
          some (e.components truncatedHash toLowercase).kind ∧
        (parseCanonicalEntityUid (e.uid truncatedHash toLowercase) =
          some (e.components truncatedHash toLowercase) ↔ e.ContentShort)) ∧
      (∀ uid c, parseCanonicalEntityUid uid = some c → c.render = uid) ∧
      (∀ instanceId url filePath name line,
        repoUidOfSymbolUid
            ((Entity.symbol instanceId url filePath name line).uid truncatedHash toLowercase) =
          some ((Entity.repo instanceId url).uid truncatedHash toLowercase)) ∧
      (∀ instanceId rootPath relPath slug line,
        noteUidOfHeading
            ((Entity.heading instanceId rootPath relPath slug line).uid truncatedHash toLowercase) =
          some ((Entity.note instanceId rootPath relPath).uid truncatedHash toLowercase)) ∧
      ∀ e e' : Entity, ValidInstance e.instanceId → ValidInstance e'.instanceId →
        (∀ a ∈ (e.identity toLowercase).hashes, ∀ b ∈ (e'.identity toLowercase).hashes,
          NoCollision truncatedHash a b) →
        e.uid truncatedHash toLowercase = e'.uid truncatedHash toLowercase →
        e.identity toLowercase = e'.identity toLowercase := by
  refine ⟨fun e hinstance => ⟨of_uid e, parseCanonicalEntityUid_uid hhex hinstance⟩,
    fun uid c h => (parseCanonicalEntityUid_eq_some h).2, ?_, ?_, ?_⟩
  · exact repoUidOfSymbolUid_symbolUid hhex
  · exact noteUidOfHeading_headingUid hhex
  · exact fun e e' hinstance hinstance' => identity_eq_of_uid_eq hhex hinstance hinstance'

/-- The hashes of two paths. -/
def vaultHashes (text : String) : String :=
  if text = "/vault" then "27d33c883a0e" else if text = "a/b.md" then "5a05f1b231ec" else "000000000000"

/-- A note, and a vault with the same instance. -/
theorem uid_codec_vault :
    parseCanonicalEntityUid "note:vlt:local:27d33c883a0e:5a05f1b231ec" =
        some (.note "local" "27d33c883a0e" "5a05f1b231ec") ∧
      (Entity.note "local" "/vault" "a/b.md").uid vaultHashes id ≠
        (Entity.vault "local" "/vault").uid vaultHashes id := by
  have hhex : ∀ s, isLowercase12Hex (vaultHashes s) = true := by
    intro s
    rw [vaultHashes]
    split_ifs <;> decide
  have hcodec := uid_codec vaultHashes id hhex
  have hlocal : ValidInstance "local" := ⟨by decide, by decide⟩
  refine ⟨((hcodec.1 (.note "local" "/vault" "a/b.md") hlocal).2.mpr trivial), fun huid => ?_⟩
  have hidentity := hcodec.2.2.2.2 (.note "local" "/vault" "a/b.md") (.vault "local" "/vault") hlocal
    hlocal (by decide) huid
  exact absurd hidentity (by decide)

/-- The indexers give a section 12 digits of its content hash, and its UID is not read back. -/
theorem section_not_read_back :
    ValidInstance "local" ∧
      (Entity.section "local" "/vault" "a/b.md" 4 "c432b372e0e3").uid vaultHashes id =
        "sec:note:vlt:local:27d33c883a0e:5a05f1b231ec:4:c432b372e0e3" ∧
      parseCanonicalEntityUid "sec:note:vlt:local:27d33c883a0e:5a05f1b231ec:4:c432b372e0e3" = none :=
  ⟨⟨by decide, by decide⟩, by decide, by decide +kernel⟩

end Uid
end NestWeaver
