import Plang.Sema.Labels

/-!
# Where labels and gotos stand

The labelled statements and the gotos in a statement, with the structured statements around them: what
the first walk notes of them, and what the checker has asked of each.
-/

namespace Plang.Labels

/-! ### Where labels and gotos stand -/

inductive Role where
  | mark
  | jump
  deriving DecidableEq, Repr

/-- A labelled statement or a goto, with the structured statements around it, the innermost first. -/
structure Site where
  role : Role
  label : Label
  node : Node
  around : List (StructKind × Node)
  deriving DecidableEq, Repr

mutual

def sites (around : List (StructKind × Node)) (node : Node) : StmtNode → List Site
  | .simple => []
  | .gotoStmt label => [⟨.jump, label, node, around⟩]
  | .labeledStmt label stmt => ⟨.mark, label, node, around⟩ :: sites around (0 :: node) stmt
  | .compoundStmt stmts => sitesAll around node 0 stmts
  | .structured kind _ stmts => sitesAll ((kind, node) :: around) node 0 stmts

def sitesAll (around : List (StructKind × Node)) (node : Node) (index : Nat) :
    List StmtNode → List Site
  | [] => []
  | stmt :: stmts => sites around (index :: node) stmt ++ sitesAll around node (index + 1) stmts

end

/-- Induction over statements, with the statements of a list taken one by one. -/
@[elab_as_elim, induction_eliminator]
theorem StmtNode.induction {motive : StmtNode → Prop} (simple : motive .simple)
    (gotoStmt : ∀ label, motive (.gotoStmt label))
    (labeledStmt : ∀ label stmt, motive stmt → motive (.labeledStmt label stmt))
    (compoundStmt : ∀ stmts, (∀ stmt ∈ stmts, motive stmt) → motive (.compoundStmt stmts))
    (structured : ∀ kind fields stmts, (∀ stmt ∈ stmts, motive stmt) →
      motive (.structured kind fields stmts))
    (stmt : StmtNode) : motive stmt :=
  @StmtNode.rec motive (fun stmts => ∀ stmt ∈ stmts, motive stmt) simple gotoStmt labeledStmt
    compoundStmt structured (fun _ mem => absurd mem List.not_mem_nil)
    (fun _ _ head tail _ mem => (List.mem_cons.mp mem).elim (fun same => same ▸ head) (tail _))
    stmt

variable {around : List (StructKind × Node)} {node : Node} {index : Nat} {site : Site}
  {stmt : StmtNode} {stmts : List StmtNode}

theorem mem_sitesAll : site ∈ sitesAll around node index stmts ↔
    ∃ (offset : Nat) (stmt : StmtNode), stmts[offset]? = some stmt ∧
      site ∈ sites around ((index + offset) :: node) stmt := by
  induction stmts generalizing index with
  | nil => simp [sitesAll]
  | cons first rest induction =>
      rw [sitesAll, List.mem_append, induction]
      constructor
      · rintro (own | ⟨offset, stmt, listed, within⟩)
        · exact ⟨0, first, rfl, own⟩
        · exact ⟨offset + 1, stmt, listed, by rwa [← Nat.add_assoc, Nat.add_right_comm]⟩
      · rintro ⟨_ | offset, stmt, listed, within⟩
        · obtain rfl := Option.some.inj listed
          exact .inl within
        · exact .inr ⟨offset, stmt, listed, by rwa [Nat.add_right_comm, Nat.add_assoc]⟩

/-- The statements around a place, each inside of the next. -/
def Nested (around : List (StructKind × Node)) (node : Node) : Prop :=
  (∀ statement ∈ around, statement.2 <:+ node) ∧
    around.Pairwise fun inner outer => outer.2 <:+ inner.2

theorem Nested.below (nested : Nested around node) (index : Nat) : Nested around (index :: node) :=
  ⟨fun statement occurs => (nested.1 statement occurs).trans (List.suffix_cons index node), nested.2⟩

theorem Nested.enter (nested : Nested around node) (kind : StructKind) :
    Nested ((kind, node) :: around) node :=
  ⟨List.forall_mem_cons.mpr ⟨List.suffix_rfl, nested.1⟩, List.pairwise_cons.mpr nested⟩

/-- The statements around a site are nested, those around the statement it is in among them, and
its place goes on from there. -/
theorem sites_nested (nested : Nested around node) (occurs : site ∈ sites around node stmt) :
    Nested site.around site.node ∧ around <:+ site.around ∧ node <:+ site.node := by
  induction stmt generalizing around node with
  | simple => simp [sites] at occurs
  | gotoStmt label =>
      rw [List.mem_singleton.mp occurs]
      exact ⟨nested, List.suffix_rfl, List.suffix_rfl⟩
  | labeledStmt label stmt induction =>
      rcases List.mem_cons.mp occurs with rfl | occurs
      · exact ⟨nested, List.suffix_rfl, List.suffix_rfl⟩
      · obtain ⟨inside, outer, further⟩ := induction (nested.below 0) occurs
        exact ⟨inside, outer, (List.suffix_cons _ _).trans further⟩
  | compoundStmt stmts induction =>
      obtain ⟨offset, stmt, listed, occurs⟩ := mem_sitesAll.mp occurs
      obtain ⟨inside, outer, further⟩ :=
        induction stmt (List.mem_of_getElem? listed) (nested.below _) occurs
      exact ⟨inside, outer, (List.suffix_cons _ _).trans further⟩
  | structured kind fields stmts induction =>
      obtain ⟨offset, stmt, listed, occurs⟩ := mem_sitesAll.mp occurs
      obtain ⟨inside, outer, further⟩ :=
        induction stmt (List.mem_of_getElem? listed) ((nested.enter kind).below _) occurs
      exact ⟨inside, (List.suffix_cons _ _).trans outer, (List.suffix_cons _ _).trans further⟩

/-! ### What the first walk notes -/

theorem mem_scanAll {nestStack : List Node} {entry : Label × Node} :
    entry ∈ scanAll nestStack node index stmts ↔
      ∃ (offset : Nat) (stmt : StmtNode), stmts[offset]? = some stmt ∧
        entry ∈ scanLabelNesting nestStack ((index + offset) :: node) stmt := by
  induction stmts generalizing index with
  | nil => simp [scanAll]
  | cons first rest induction =>
      rw [scanAll, List.mem_append, induction]
      constructor
      · rintro (own | ⟨offset, stmt, listed, within⟩)
        · exact ⟨0, first, rfl, own⟩
        · exact ⟨offset + 1, stmt, listed, by rwa [← Nat.add_assoc, Nat.add_right_comm]⟩
      · rintro ⟨_ | offset, stmt, listed, within⟩
        · obtain rfl := Option.some.inj listed
          exact .inl within
        · exact .inr ⟨offset, stmt, listed, by rwa [Nat.add_right_comm, Nat.add_assoc]⟩

/-- No for-in statement is among some statements. -/
def NoForIn (around : List (StructKind × Node)) : Prop :=
  ∀ statement ∈ around, statement.1 ≠ .forInStmt

/-- A labelled statement with its label and the innermost statement around it, seen by the walk. -/
def Seen (site : Site) (entry : Label × Node) : Prop :=
  site.role = .mark ∧ site.label = entry.1 ∧
    (site.around.map Prod.snd).head? = some entry.2 ∧ NoForIn site.around

theorem not_noForIn_of_sites (nested : Nested around node) (occurs : site ∈ sites around node stmt)
    (has_forIn : ¬NoForIn around) : ¬NoForIn site.around := fun none_inside =>
  has_forIn fun statement listed =>
    none_inside statement ((sites_nested nested occurs).2.1.subset listed)

/-- The walk notes the labels that it sees. -/
theorem mem_scanLabelNesting {entry : Label × Node} (nested : Nested around node)
    (outside : NoForIn around) :
    entry ∈ scanLabelNesting (around.map Prod.snd) node stmt ↔
      ∃ site ∈ sites around node stmt, Seen site entry := by
  induction stmt generalizing around node with
  | simple => simp [scanLabelNesting, sites]
  | gotoStmt label => simp [scanLabelNesting, sites, Seen]
  | labeledStmt label stmt induction =>
      rw [scanLabelNesting, List.mem_append, induction (nested.below 0) outside, sites]
      constructor
      · rintro (own | ⟨site, occurs, seen⟩)
        · obtain ⟨enclosing, innermost, rfl⟩ := List.mem_map.mp own
          exact ⟨_, List.mem_cons_self, rfl, rfl, Option.mem_toList.mp innermost, outside⟩
        · exact ⟨site, List.mem_cons_of_mem _ occurs, seen⟩
      · rintro ⟨site, occurs, seen⟩
        rcases List.mem_cons.mp occurs with rfl | occurs
        · obtain ⟨_, named, innermost, _⟩ := seen
          refine .inl (List.mem_map.mpr ⟨entry.2, Option.mem_toList.mpr innermost, ?_⟩)
          exact Prod.ext named rfl
        · exact .inr ⟨site, occurs, seen⟩
  | compoundStmt stmts induction =>
      rw [scanLabelNesting, sites, mem_scanAll]
      constructor
      · rintro ⟨offset, stmt, listed, noted⟩
        obtain ⟨site, occurs, seen⟩ :=
          (induction stmt (List.mem_of_getElem? listed) (nested.below _) outside).mp noted
        exact ⟨site, mem_sitesAll.mpr ⟨offset, stmt, listed, occurs⟩, seen⟩
      · rintro ⟨site, occurs, seen⟩
        obtain ⟨offset, stmt, listed, occurs⟩ := mem_sitesAll.mp occurs
        exact ⟨offset, stmt, listed,
          (induction stmt (List.mem_of_getElem? listed) (nested.below _) outside).mpr
            ⟨site, occurs, seen⟩⟩
  | structured kind fields stmts induction =>
      rw [scanLabelNesting, sites]
      by_cases for_in : kind = .forInStmt
      · -- the walk does not enter it, and nothing in it is outside of it
        rw [if_pos for_in]
        constructor
        · intro impossible
          cases impossible
        · rintro ⟨site, occurs, _, _, _, none_inside⟩
          obtain ⟨offset, stmt, listed, occurs⟩ := mem_sitesAll.mp occurs
          refine absurd none_inside (not_noForIn_of_sites ((nested.enter kind).below _) occurs ?_)
          exact fun none_around => none_around _ List.mem_cons_self for_in
      · rw [if_neg for_in, mem_scanAll]
        have still_outside : NoForIn ((kind, node) :: around) :=
          List.forall_mem_cons.mpr ⟨for_in, outside⟩
        constructor
        · rintro ⟨offset, stmt, listed, noted⟩
          obtain ⟨site, occurs, seen⟩ := (induction stmt (List.mem_of_getElem? listed)
            ((nested.enter kind).below _) still_outside).mp noted
          exact ⟨site, mem_sitesAll.mpr ⟨offset, stmt, listed, occurs⟩, seen⟩
        · rintro ⟨site, occurs, seen⟩
          obtain ⟨offset, stmt, listed, occurs⟩ := mem_sitesAll.mp occurs
          exact ⟨offset, stmt, listed, (induction stmt (List.mem_of_getElem? listed)
            ((nested.enter kind).below _) still_outside).mpr ⟨site, occurs, seen⟩⟩

theorem mem_scan_outermost {entry : Label × Node} : entry ∈ scanLabelNesting [] node stmt ↔
    ∃ site ∈ sites [] node stmt, Seen site entry :=
  @mem_scanLabelNesting [] _ _ _ ⟨by simp, List.Pairwise.nil⟩ (by simp [NoForIn])

theorem labelEnclosingStmt_mem {entries : List (Label × Node)} {label : Label} {enclosing : Node}
    (noted : labelEnclosingStmt entries label = some enclosing) : (label, enclosing) ∈ entries := by
  obtain ⟨entry, found, rfl⟩ := Option.map_eq_some_iff.mp noted
  have named : entry.1 = label := by simpa using List.find?_some found
  have occurs := List.mem_reverse.mp (List.mem_of_find?_eq_some found)
  rwa [← named]

theorem labelEnclosingStmt_exists {entries : List (Label × Node)} {entry : Label × Node}
    (occurs : entry ∈ entries) : ∃ enclosing, labelEnclosingStmt entries entry.1 = some enclosing := by
  have found : (entries.reverse.find? fun other => other.1 = entry.1).isSome = true :=
    List.find?_isSome.mpr ⟨entry, List.mem_reverse.mpr occurs, by simp⟩
  obtain ⟨other, found⟩ := Option.isSome_iff_exists.mp found
  exact ⟨other.2, by rw [labelEnclosingStmt, found, Option.map_some]⟩

/-! ### What the checker accepts -/

variable {context : Context} {scopes : List Scope}

theorem checkAll_iff {structStack : List Node} : checkAll context scopes structStack node index stmts =
    true ↔ ∀ (offset : Nat) (stmt : StmtNode), stmts[offset]? = some stmt →
      checkStmt context scopes structStack ((index + offset) :: node) stmt = true := by
  induction stmts generalizing index with
  | nil => simp [checkAll]
  | cons first rest induction =>
      rw [checkAll, Bool.and_eq_true, induction]
      constructor
      · rintro ⟨own, rest_checked⟩ (_ | offset) stmt listed
        · obtain rfl := Option.some.inj listed
          exact own
        · rw [← Nat.add_assoc, Nat.add_right_comm]
          exact rest_checked offset stmt listed
      · intro checked
        refine ⟨checked 0 first rfl, fun offset stmt listed => ?_⟩
        rw [Nat.add_right_comm, Nat.add_assoc]
        exact checked (offset + 1) stmt listed

/-- The conditions under which the checker accepts a site. -/
structure Accepts (context : Context) (scopes : List Scope) (site : Site) (symbol : LabelSymbol) :
    Prop where
  found : lookup scopes site.label = some (.label symbol)
  own : site.role = .mark → site.label ∈ context.currentBlockLabels
  enclosed : site.role = .jump → site.label ∈ context.currentBlockLabels →
    ∀ enclosing, labelEnclosingStmt context.entries site.label = some enclosing →
      enclosing ∈ site.around.map Prod.snd
  outward : site.role = .jump → site.label ∉ context.currentBlockLabels →
    symbol.labelInModuleBlock = false ∧ symbol.labelNested = false ∧ context.turbo = false

/-- Scopes of fields declare no labels. -/
theorem lookup_nameScope {names : List Text} {label : Label} {symbol : LabelSymbol}
    (found : lookup (nameScope names :: scopes) label = some (.label symbol)) :
    lookup scopes label = some (.label symbol) := by
  rw [lookup, List.findSome?_cons] at found
  cases named : (nameScope names).lookup label with
  | none =>
      rw [named] at found
      exact found
  | some declared =>
      rw [named] at found
      obtain rfl := Option.some.inj found
      obtain ⟨before, after, split, _⟩ := List.lookup_eq_some_iff.mp named
      have occurs : (label, Symbol.label symbol) ∈ nameScope names := by
        rw [split]
        exact List.mem_append_right _ List.mem_cons_self
      obtain ⟨_, _, impossible⟩ := List.mem_map.mp occurs
      cases impossible

theorem lookup_withScope {kind : StructKind} {fields : List Text} {label : Label}
    {symbol : LabelSymbol}
    (found : lookup (withScope kind fields ++ scopes) label = some (.label symbol)) :
    lookup scopes label = some (.label symbol) := by
  rw [withScope] at found
  split at found
  · exact lookup_nameScope found
  · exact found

theorem accepts_goto {label : Label}
    (checked : checkGoto context scopes (around.map Prod.snd) label = true) :
    ∃ symbol, Accepts context scopes ⟨.jump, label, node, around⟩ symbol := by
  rw [checkGoto] at checked
  cases found : lookup scopes label with
  | none => simp [found] at checked
  | some declared =>
      cases declared with
      | other => simp [found] at checked
      | label symbol =>
          simp only [found] at checked
          refine ⟨symbol, found, fun impossible => (by cases impossible), fun _ own enclosing noted => ?_,
            fun _ other => ?_⟩
          · rw [if_pos own, noted] at checked
            exact of_decide_eq_true checked
          · rw [if_neg other] at checked
            simpa [and_assoc] using checked

theorem accepts_labeled {label : Label} (checked : checkLabeled context scopes label = true) :
    ∃ symbol, Accepts context scopes ⟨.mark, label, node, around⟩ symbol := by
  rw [checkLabeled] at checked
  cases found : lookup scopes label with
  | none => simp [found] at checked
  | some declared =>
      cases declared with
      | other => simp [found] at checked
      | label symbol =>
          simp only [found] at checked
          exact ⟨symbol, found, fun _ => of_decide_eq_true checked,
            fun impossible => (by cases impossible), fun impossible => (by cases impossible)⟩

/-- In an accepted statement every site is accepted. -/
theorem accepts_of_checkStmt
    (checked : checkStmt context scopes (around.map Prod.snd) node stmt = true)
    (occurs : site ∈ sites around node stmt) : ∃ symbol, Accepts context scopes site symbol := by
  induction stmt generalizing around node scopes with
  | simple => simp [sites] at occurs
  | gotoStmt label =>
      rw [List.mem_singleton.mp occurs]
      exact accepts_goto checked
  | labeledStmt label stmt induction =>
      rw [checkStmt, Bool.and_eq_true] at checked
      rcases List.mem_cons.mp occurs with rfl | occurs
      · exact accepts_labeled checked.1
      · exact induction checked.2 occurs
  | compoundStmt stmts induction =>
      rw [checkStmt, checkAll_iff] at checked
      obtain ⟨offset, stmt, listed, occurs⟩ := mem_sitesAll.mp occurs
      exact induction stmt (List.mem_of_getElem? listed) (checked offset stmt listed) occurs
  | structured kind fields stmts induction =>
      rw [checkStmt, checkAll_iff] at checked
      obtain ⟨offset, stmt, listed, occurs⟩ := mem_sitesAll.mp occurs
      obtain ⟨symbol, accepts⟩ := induction stmt (List.mem_of_getElem? listed)
        (checked offset stmt listed) occurs
      exact ⟨symbol, lookup_withScope accepts.found, accepts.own, accepts.enclosed, accepts.outward⟩

theorem accepts_of_outermost (checked : checkStmt context scopes [] node stmt = true)
    (occurs : site ∈ sites [] node stmt) : ∃ symbol, Accepts context scopes site symbol :=
  @accepts_of_checkStmt [] _ _ _ _ _ checked occurs

/-! ### Labels that are placed -/

theorem mem_placedAll {label : Label} :
    label ∈ placedAll stmts ↔ ∃ stmt ∈ stmts, label ∈ placed stmt := by
  induction stmts with
  | nil => simp [placedAll]
  | cons first rest induction => simp [placedAll, induction]

/-- A statement of a list has its sites among those of the list. -/
theorem exists_mem_sitesAll {holds : Site → Prop} (listed : stmt ∈ stmts)
    (found : ∀ index, ∃ site ∈ sites around (index :: node) stmt, holds site) :
    ∃ site ∈ sitesAll around node index stmts, holds site := by
  obtain ⟨offset, at_offset⟩ := List.mem_iff_getElem?.mp listed
  obtain ⟨site, occurs, has⟩ := found (index + offset)
  exact ⟨site, mem_sitesAll.mpr ⟨offset, stmt, at_offset, occurs⟩, has⟩

/-- A label that is placed marks a statement. -/
theorem mark_of_placed {label : Label} (marked : label ∈ placed stmt) :
    ∃ site ∈ sites around node stmt, site.role = .mark ∧ site.label = label := by
  induction stmt generalizing around node with
  | simple => cases marked
  | gotoStmt other => cases marked
  | labeledStmt other stmt induction =>
      rcases List.mem_cons.mp marked with rfl | marked
      · exact ⟨_, List.mem_cons_self, rfl, rfl⟩
      · obtain ⟨site, occurs, named⟩ := induction marked
        exact ⟨site, List.mem_cons_of_mem _ occurs, named⟩
  | compoundStmt stmts induction =>
      obtain ⟨stmt, listed, marked⟩ := mem_placedAll.mp marked
      exact exists_mem_sitesAll listed fun _ => induction stmt listed marked
  | structured kind fields stmts induction =>
      obtain ⟨stmt, listed, marked⟩ := mem_placedAll.mp marked
      exact exists_mem_sitesAll listed fun _ => induction stmt listed marked

theorem mark_of_placedAll {label : Label} (marked : label ∈ placedAll stmts) :
    ∃ site ∈ sitesAll around node index stmts, site.role = .mark ∧ site.label = label := by
  obtain ⟨stmt, listed, marked⟩ := mem_placedAll.mp marked
  exact exists_mem_sitesAll listed fun _ => mark_of_placed marked

/-- The part of a block that a site stands in is the last index of its place. -/
theorem part_of_sitesAll (occurs : site ∈ sitesAll [] [] index stmts) :
    ∃ (offset : Nat) (stmt : StmtNode), stmts[offset]? = some stmt ∧
      site ∈ sites [] [index + offset] stmt ∧ site.node.getLast? = some (index + offset) := by
  obtain ⟨offset, stmt, listed, occurs⟩ := mem_sitesAll.mp occurs
  refine ⟨offset, stmt, listed, occurs, ?_⟩
  obtain ⟨inner, whole⟩ := (sites_nested ⟨by simp, List.Pairwise.nil⟩ occurs).2.2
  rw [← whole, List.getLast?_append_of_ne_nil _ (List.cons_ne_nil _ _), List.getLast?_singleton]

theorem nested_of_sites (occurs : site ∈ sitesAll [] [] index stmts) :
    Nested site.around site.node := by
  obtain ⟨offset, stmt, _, occurs⟩ := mem_sitesAll.mp occurs
  exact (sites_nested ⟨by simp, List.Pairwise.nil⟩ occurs).1

end Plang.Labels
