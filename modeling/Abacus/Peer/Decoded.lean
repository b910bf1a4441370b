import Abacus.Peer.Blob

/-! # What is loaded

The strings of a message that was loaded end at their terminators, so they have no zero
byte. A message with a zero byte in a string is not rebuilt.
-/

namespace Abacus.Peer.Decoded

open Library Library.Bytes Library.Reader Peer.Classes Peer.Load Peer.Store Peer.Blob

variable {α : Type} {m : ProbMessage}

theorem ensures_mapMessage {f : α → Message} {r : Read (α × Nat)} {P : Message → Prop}
    (h : Ensures r fun a => P (f a.1)) : Ensures (mapMessage f r) fun a => P a.1 :=
  ensures_bind h fun _ ha => ensures_pure ha

theorem ensures_passwd (buf : Str) : Ensures (PasswdMessage.load buf) fun a => Plain (.passwd a.1) := by
  refine ensures_check (ensures_skip fun len => ensures_check (ensures_skip fun userId => ?_))
  refine ensures_bind (ensures_cstrAt buf 4) fun newpass hpass => ensures_pure ?_
  simp only [Plain, fields, List.forall_mem_cons]
  exact ⟨trivial, hpass, List.forall_mem_nil _⟩

theorem ensures_clarification (buf : Str) :
    Ensures (ClarificationMessage.load buf) fun a => Plain (.clarification a.1) := by
  refine ensures_check ?_
  refine ensures_skip fun request => ensures_skip fun requestId => ensures_skip fun id => ensures_skip fun userId => ?_
  refine ensures_skip fun probId => ensures_skip fun time => ensures_skip fun serverId => ensures_skip fun _ => ?_
  refine ensures_bind (ensures_cstrAt buf 28) fun text htext => ensures_pure ?_
  simp only [Plain, fields, List.forall_mem_cons]
  exact ⟨trivial, trivial, trivial, trivial, trivial, trivial, trivial, htext, List.forall_mem_nil _⟩

theorem ensures_submission (buf : Str) : Ensures (SubmissionMessage.load buf) fun a => Plain (.submission a.1) := by
  refine ensures_check ?_
  refine ensures_skip fun id => ensures_skip fun userId => ensures_skip fun probId => ensures_skip fun time => ?_
  refine ensures_skip fun serverId => ensures_skip fun contentSize => ?_
  refine ensures_check (ensures_skip fun content => ensures_skip fun _ => ?_)
  refine ensures_bind (ensures_cstrAt buf _) fun language hlanguage => ensures_pure ?_
  simp only [Plain, fields, List.forall_mem_cons]
  exact ⟨trivial, trivial, trivial, trivial, trivial, trivial, trivial, hlanguage, List.forall_mem_nil _⟩

theorem ensures_createGroup (buf : Str) : Ensures (MessageCreateGroup.load buf) fun a => Plain (.createGroup a.1) := by
  refine ensures_skip fun numzeros => ensures_check (ensures_skip fun groupId => ?_)
  refine ensures_bind (ensures_cstrAt buf 4) fun groupname hname => ensures_pure ?_
  simp only [Plain, fields, List.forall_mem_cons]
  exact ⟨trivial, hname, List.forall_mem_nil _⟩

theorem ensures_createUser (buf : Str) : Ensures (MessageCreateUser.load buf) fun a => Plain (.createUser a.1) := by
  refine ensures_skip fun numzeros => ensures_check ?_
  refine ensures_skip fun userId => ensures_skip fun type => ensures_skip fun groupId => ensures_skip
    fun requestor => ?_
  refine ensures_bind (ensures_cstrAt buf _) fun username hname => ?_
  refine ensures_bind (ensures_cstrAt buf _) fun friendlyname hfriendly => ?_
  refine ensures_bind (ensures_cstrAt buf _) fun password hpass => ensures_pure ?_
  simp only [Plain, fields, List.forall_mem_cons]
  exact ⟨trivial, trivial, trivial, trivial, hname, hfriendly, hpass, List.forall_mem_nil _⟩

/-- Neither a key nor what is read off a value has a zero byte. -/
def PlainMap {α : Type} (string : α → Str) (map : StringMap α) : Prop :=
  ∀ (k : Str) (a : α), map[k]? = some a → (0 : UInt8) ∉ k ∧ (0 : UInt8) ∉ string a

theorem plainMap_empty (string : α → Str) : PlainMap string ∅ := by
  intro k a hk
  simp at hk

theorem PlainMap.insert {string : α → Str} {map : StringMap α} (h : PlainMap string map) {k : Str} {a : α}
    (hk : (0 : UInt8) ∉ k) (ha : (0 : UInt8) ∉ string a) : PlainMap string (map.insert k a) := by
  intro k' a' hget
  rw [Table.getElem?_insert_row] at hget
  split at hget
  · next hkey =>
    cases hget
    exact ⟨hkey ▸ hk, ha⟩
  · exact h k' a' hget

theorem PlainMap.of_mem {string : α → Str} {map : StringMap α} (h : PlainMap string map) {p : Str × α}
    (hp : p ∈ map.toList) : (0 : UInt8) ∉ p.1 ∧ (0 : UInt8) ∉ string p.2 :=
  h p.1 p.2 (Std.ExtTreeMap.mem_toList_iff_getElem?_eq_some.mp hp)

theorem ensures_loadAttribs (buf : Str) (n pos : Nat) {attribs : StringMap Str} (h : PlainMap id attribs) :
    Ensures (MessageCreateServer.loadAttribs buf n pos attribs) fun a => PlainMap id a.1 := by
  induction n using Nat.twoStepInduction generalizing pos attribs with
  | zero | one => exact ensures_pure h
  | more n ih _ =>
    refine ensures_bind (ensures_cstrAt buf _) fun name hname => ?_
    refine ensures_bind (ensures_cstrAt buf _) fun value hvalue => ?_
    exact ih _ (h.insert hname hvalue)

theorem ensures_createServer (buf : Str) :
    Ensures (MessageCreateServer.load buf) fun a => Plain (.createServer a.1) := by
  refine ensures_skip fun numzeros => ensures_check (ensures_skip fun serverId => ?_)
  refine ensures_bind (ensures_cstrAt buf 4) fun name hname => ?_
  refine ensures_bind (ensures_loadAttribs buf _ _ (plainMap_empty id)) fun attribs hattribs => ensures_pure ?_
  have hnil := List.forall_mem_nil PlainField
  simp only [Plain, fields, List.forall_mem_append, List.forall_mem_cons, List.forall_mem_flatMap]
  exact ⟨⟨trivial, hname, hnil⟩, fun p hp => ⟨(hattribs.of_mem hp).1, (hattribs.of_mem hp).2, hnil⟩⟩

theorem ensures_loadFiles (buf : Str) (rounds pos size : Nat) {files : List MarkFile}
    (h : ∀ f ∈ files, (0 : UInt8) ∉ f.name) :
    Ensures (MarkMessage.loadFiles buf rounds pos size files) fun a => ∀ f ∈ a.1, (0 : UInt8) ∉ f.name := by
  induction rounds generalizing pos size files with
  | zero => exact ensures_throw _
  | succ rounds ih =>
    refine ensures_ite (fun _ => ?_) fun _ => ensures_pure h
    refine ensures_skip fun found => ensures_ite (fun _ => ?_) fun _ => ensures_pure h
    refine ensures_bind (ensures_cstrAt buf _) fun name hname => ?_
    refine ensures_skip fun len => ensures_check (ensures_skip fun data => ih _ _ ?_)
    intro f hf
    obtain hf | hf := List.mem_append.mp hf
    · exact h f hf
    · obtain rfl := List.mem_singleton.mp hf
      exact hname

theorem ensures_mark (buf : Str) : Ensures (MarkMessage.load buf) fun a => Plain (.mark a.1) := by
  refine ensures_check ?_
  refine ensures_skip fun id => ensures_skip fun marker => ensures_skip fun result => ensures_skip fun time => ?_
  refine ensures_skip fun serverId => ensures_skip fun _ => ?_
  refine ensures_bind (ensures_cstrAt buf 20) fun comment hcomment => ?_
  refine ensures_bind (ensures_loadFiles buf _ _ _ nofun) fun files hfiles => ensures_pure ?_
  have hnil := List.forall_mem_nil PlainField
  simp only [Plain, fields, markFile, List.forall_mem_append, List.forall_mem_cons, List.forall_mem_flatMap]
  exact ⟨⟨trivial, trivial, trivial, trivial, trivial, hcomment, hnil⟩,
    fun file hfile => ⟨hfiles file hfile, trivial, trivial, hnil⟩⟩

structure PlainProb (m : ProbMessage) : Prop where
  type : (0 : UInt8) ∉ m.type
  ints : PlainMap (fun _ => []) m.ints
  strings : PlainMap id m.strings
  files : PlainMap FileAttrib.name m.files

theorem PlainProb.plain (h : PlainProb m) : Plain (.prob m) := by
  have hnil := List.forall_mem_nil PlainField
  simp only [Plain, fields, fileAttrib, List.forall_mem_append, List.forall_mem_cons, List.forall_mem_flatMap,
    List.forall_mem_map]
  refine ⟨⟨⟨⟨⟨⟨trivial, trivial, trivial, hnil⟩, fun _ _ => trivial⟩, h.type, hnil⟩, fun a ha => ?_⟩, fun a ha => ?_⟩,
    fun a ha => ?_⟩
  · exact ⟨trivial, (h.ints.of_mem ha).1, trivial, hnil⟩
  · exact ⟨trivial, (h.strings.of_mem ha).1, (h.strings.of_mem ha).2, hnil⟩
  · exact ⟨trivial, (h.files.of_mem ha).1, (h.files.of_mem ha).2, trivial, trivial, hnil⟩

theorem ensures_loadAttrib (buf : Str) (tag : UInt8) (pos size : Nat) (h : PlainProb m) :
    Ensures (ProbMessage.loadAttrib buf tag pos size m) fun a => PlainProb a.1 := by
  have hnil : (0 : UInt8) ∉ ([] : Str) := nofun
  refine ensures_ite (fun _ => ?_) fun _ => ensures_ite (fun _ => ?_) fun _ => ensures_ite (fun _ => ?_) fun _ =>
    ensures_throw _
  · refine ensures_skip fun _ => ensures_bind (ensures_cstrAt buf _) fun attr hattr => ?_
    refine ensures_bind (ensures_cstrAt buf _) fun value hvalue => ensures_pure ?_
    exact ⟨h.type, h.ints, h.strings.insert hattr hvalue, h.files⟩
  · refine ensures_skip fun _ => ensures_bind (ensures_cstrAt buf _) fun attr hattr => ?_
    refine ensures_skip fun value => ensures_pure ?_
    exact ⟨h.type, h.ints.insert hattr hnil, h.strings, h.files⟩
  · refine ensures_check (ensures_skip fun _ => ensures_bind (ensures_cstrAt buf _) fun attr hattr => ?_)
    refine ensures_bind (ensures_cstrAt buf _) fun name hname => ensures_skip fun filesize => ?_
    refine ensures_ite (fun _ => ensures_pure ?_) fun _ => ?_
    · exact ⟨h.type, h.ints, h.strings, h.files.insert hattr hnil⟩
    · refine ensures_check (ensures_skip fun data => ensures_pure ?_)
      exact ⟨h.type, h.ints, h.strings, h.files.insert hattr hname⟩

theorem ensures_loadAttribs_prob (buf : Str) (rounds pos size : Nat) (h : PlainProb m) :
    Ensures (ProbMessage.loadAttribs buf rounds pos size m) fun a => PlainProb a.1 := by
  induction rounds generalizing pos size m with
  | zero => exact ensures_throw _
  | succ rounds ih =>
    refine ensures_ite (fun _ => ensures_pure h) fun _ => ensures_skip fun tag => ?_
    exact ensures_bind (ensures_loadAttrib buf tag _ _ h) fun a ha => ih _ _ ha

theorem ensures_prob (buf : Str) : Ensures (ProbMessage.load buf) fun a => Plain (.prob a.1) := by
  refine ensures_check (ensures_skip fun probId => ensures_skip fun updateTime => ensures_skip fun depsSize => ?_)
  refine ensures_skip fun deps => ensures_skip fun _ => ?_
  refine ensures_bind (ensures_cstrAt buf _) fun type htype => ?_
  refine ensures_bind (ensures_loadAttribs_prob buf _ _ _ ?_) fun a ha => ensures_pure ha.plain
  exact ⟨htype, plainMap_empty _, plainMap_empty _, plainMap_empty _⟩

theorem ensures_load (cls : MessageClass) (buf : Str) : Ensures (load cls buf) fun a => Plain a.1 := by
  cases cls with
  | createServer => exact ensures_mapMessage (ensures_createServer buf)
  | createUser => exact ensures_mapMessage (ensures_createUser buf)
  | createGroup => exact ensures_mapMessage (ensures_createGroup buf)
  | passwd => exact ensures_mapMessage (ensures_passwd buf)
  | prob => exact ensures_mapMessage (ensures_prob buf)
  | submission => exact ensures_mapMessage (ensures_submission buf)
  | mark => exact ensures_mapMessage (ensures_mark buf)
  | clarification => exact ensures_mapMessage (ensures_clarification buf)
  | startStop | bonus =>
    refine ensures_mapMessage fun a _ => ?_
    simp only [Plain, fields, List.forall_mem_cons]
    exact ⟨trivial, trivial, trivial, List.forall_mem_nil _⟩

theorem plain_of_buildMessage {functors : Functors} {blob : Str} {h : Header} {m : Message}
    (hbuild : buildMessage functors blob = .ok (h, m)) : Plain m := by
  unfold buildMessage at hbuild
  split at hbuild
  · split at hbuild
    · cases hbuild
    · next cls _ =>
      cases hload : load cls (blob.drop blobHeader) with
      | error fault =>
        rw [hload] at hbuild
        cases hbuild
      | ok a =>
        rw [hload] at hbuild
        change (if a.2 = 4294967295 then _ else _) = _ at hbuild
        split at hbuild
        · cases hbuild
        · cases hbuild
          exact ensures_load cls _ a hload
  · cases hbuild

end Abacus.Peer.Decoded
