import Abacus.Client.Totality
import Abacus.Client.Walk
import Abacus.Description.Reading
import Abacus.Description.Server

/-! # What a description means

The server and the tool find the same leaves in the text of a forest, and a request that meets the
description leads to a message with just the attributes that are present, unless a range passes the
check in 32 bits only.
-/

namespace Abacus.Description.Agreement

open Library.Bytes Client.Block Client.Action Client.ProblemManip Client.Walk
open Peer.Classes Description.Tool Description.Language Description.Reading

/-- The description of the forest means its leaves, to the tool and to the server. -/
structure Understood (f : Forest) (mb : MessageBlock) (probId : Nat) (msg : ProbMessage) : Prop where
  server : attributes (f.render.length + 1) [] f.render = (f.leaves, .done)
  tool : ∃ table, problemParseDesc f.render = .ok table ∧
    ∀ (name : Str) (p : ProblemAttribute), table[name]? = some p ↔ ∃ a ∈ f.leaves, a.name = name ∧ p = toolAttribute a
  taken : (∃ msg', walk mb probId f.render msg = .ok msg') ↔ ∀ a ∈ f.leaves, Fits mb probId a
  contents : ∀ msg', walk mb probId f.render msg = .ok msg' → ∀ (name : Str) (e : Entry), Holds msg' name e ↔
    ∃ a ∈ f.leaves, ∃ value, a.name = name ∧ mb.headers[name]? = some value ∧ entry mb probId value a.kind = some e
  /-- Nothing outside of the content is read. -/
  defined : walk mb probId f.render msg ≠ .fault .outOfBounds

variable {f : Forest} {mb : MessageBlock} {probId : Nat} {msg msg' : ProbMessage}

theorem walk_render (hf : f.Proper) : walk mb probId f.render msg = setAttributes mb probId f.leaves msg := by
  rw [walk_eq, Server.attributes_render f hf]
  cases setAttributes mb probId f.leaves msg <;> rfl

theorem tool_render (hf : f.Proper) (hlength : f.render.length < 2147483648)
    (hnames : (f.leaves.map Attribute.name).Nodup) :
    ∃ table, problemParseDesc f.render = .ok table ∧ ∀ (name : Str) (p : ProblemAttribute),
      table[name]? = some p ↔ ∃ a ∈ f.leaves, a.name = name ∧ p = toolAttribute a := by
  refine ⟨_, problemParseDesc_render f hf hlength, ?_⟩
  intro name p
  rw [getElem?_enter f.leaves hnames]
  simp

theorem contents_render (hf : f.Proper) (hnames : (f.leaves.map Attribute.name).Nodup)
    (hcontent : mb.contentSize ≤ 2147483647) (hvacant : ∀ name, Vacant msg name)
    (hwalk : walk mb probId f.render msg = .ok msg') (name : Str) (e : Entry) : Holds msg' name e ↔
      ∃ a ∈ f.leaves, ∃ value,
        a.name = name ∧ mb.headers[name]? = some value ∧ entry mb probId value a.kind = some e := by
  rw [walk_render hf] at hwalk
  obtain ⟨-, rfl⟩ := (setAttributes_eq_ok_iff hcontent _).mp hwalk
  have hentries : ((entries mb probId f.leaves).map Prod.fst).Nodup := (map_fst_entries _).nodup hnames
  rw [holds_foldl_put _ hentries fun name _ => hvacant name, or_iff_left (hvacant name e), mem_entries]

/-- The first leaf that does not fit is a file outside of the content, whose range passes the check. -/
def Misread (f : Forest) (mb : MessageBlock) (probId : Nat) : Prop :=
  ∃ before a after, f.leaves = before ++ a :: after ∧ (∀ b ∈ before, Fits mb probId b) ∧ Overruns mb a

theorem vacant_newMessage (s : Server) (number : Nat) (type name : Str) :
    Vacant (newMessage s mb number type) name := by
  intro e
  cases e <;> simp [Holds, newMessage]

theorem understood_iff (f : Forest) (hf : f.Proper) (hnames : (f.leaves.map Attribute.name).Nodup) (s : Server)
    (mb : MessageBlock) (hcontent : mb.contentSize ≤ 2147483647) (probId number : Nat) (type : Str) :
    Understood f mb probId (newMessage s mb number type) ↔
      f.render.length < 2147483648 ∧ ¬ Misread f mb probId := by
  rw [Misread, ← setAttributes_eq_fault_iff hcontent, ← walk_render hf]
  constructor
  · intro h
    refine ⟨Nat.lt_of_not_le fun hlong => ?_, h.defined⟩
    obtain ⟨table, htable, -⟩ := h.tool
    rw [problemParseDesc, if_pos hlong] at htable
    cases htable
  · rintro ⟨hlength, hdefined⟩
    refine ⟨Server.attributes_render f hf, tool_render hf hlength hnames, ?_, ?_, hdefined⟩
    · rw [walk_render hf]
      simp only [setAttributes_eq_ok_iff hcontent, exists_and_left, exists_eq, and_true]
    · intro msg' hwalk
      exact contents_render hf hnames hcontent (vacant_newMessage s number type) hwalk

def sample : Forest :=
  .group ⟨str "testcase", by decide, by decide +kernel⟩
    (.leaf ⟨str "input", by decide, by decide +kernel⟩ .file false
      (.leaf ⟨str "mode", by decide, by decide +kernel⟩
        (.choice ⟨str "Yes", by decide, by decide +kernel⟩ [⟨str "No", by decide, by decide +kernel⟩]) true .nil)) .nil

example : sample.render = str "testcase (input F, mode \x7bYes,No\x7d ?)" := by decide

def upload (input : String) : MessageBlock := request "setprobattrs" [("testcase.input", input)]

theorem proper_sample : sample.Proper := by simp [sample, Forest.Proper]

theorem names_sample : (sample.leaves.map Attribute.name).Nodup := by decide +kernel

def blank (mb : MessageBlock) : ProbMessage := newMessage Client.Totality.server mb 1 []

/-- A file that is the whole content, and no mode. -/
theorem understood_whole_content : Understood sample (upload "0 1 in") 0 (blank (upload "0 1 in")) := by
  have hcontent : (upload "0 1 in").contentSize ≤ 2147483647 := by decide +kernel
  apply (understood_iff sample proper_sample names_sample _ _ hcontent 0 1 []).mpr
  refine ⟨by decide, fun hmisread => ?_⟩
  have hfault : setAttributes (upload "0 1 in") 0 sample.leaves (blank (upload "0 1 in")) = .fault .outOfBounds :=
    (setAttributes_eq_fault_iff hcontent _).mpr hmisread
  exact absurd hfault (by decide +kernel)

/-- The end of the file wraps to 0. -/
theorem not_understood_wrapped : ¬ ∀ (f : Forest), f.Proper → (f.leaves.map Attribute.name).Nodup →
    ∀ (s : Server) (mb : MessageBlock), mb.contentSize ≤ 2147483647 → ∀ (probId number : Nat) (type : Str),
      Understood f mb probId (newMessage s mb number type) := by
  intro hall
  have hunderstood := hall sample proper_sample names_sample Client.Totality.server (upload "4294967295 1 in")
    (by decide +kernel) 0 1 []
  exact hunderstood.defined (by decide +kernel)

end Abacus.Description.Agreement
