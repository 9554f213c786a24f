import DbtNova.RewritePasses
import DbtNova.SqlStructure

/-!
# Replacing all qualifiers at once

The aliases of a query are replaced one after another, the longest first. Against it
stands the replacement of all qualifiers at once, in which no alias looks into what
another one has written. A FROM item is known by its label, or else by its name, and the
tables stay apart when no two of them come out under one qualifier.
-/
namespace DbtNova.AliasSubstitution
open PrintedSql SqlLiterals SqlStructure RewritePasses

/-! ## Entries of an alias map -/

/-- The text that an entry replaces. -/
def qualifierText (entry : String × String) : List Char := (entry.1 ++ ".").toList

/-- An alias that stands for itself is left as it is. -/
def canonicalText (entry : String × String) : List Char :=
  if entry.1 = entry.2 then qualifierText entry
  else (if entry.2 = "" then "" else entry.2 ++ ".").toList

def inOrder (aliases : Aliases) : Aliases := aliases.insertionSort comesBefore

def rewrites (aliases : Aliases) : List (List Char × List Char) :=
  (inOrder aliases).map fun entry => (qualifierText entry, canonicalText entry)

/-- All qualifiers replaced at once, the longest first. -/
def substituteAll (value : String) (aliases : Aliases) : String :=
  String.ofList ((rewriteOnce isQualifierBoundary (rewrites aliases)
    (value.toList.map .kept)).flatMap Piece.target)

/-- No replaced alias reads what an earlier entry writes. -/
def Unread (aliases : Aliases) : Prop := Separate isQualifierBoundary (rewrites aliases)

/-- No occurrence of a replaced alias starts inside another one. -/
def Unbordered (aliases : Aliases) : Prop :=
  ∀ entry ∈ aliases, entry.1 ≠ entry.2 →
    ¬ Reaches isQualifierBoundary (qualifierText entry) (qualifierText entry)

section Entries
variable {aliases : Aliases} {entry other : String × String}

theorem qualifierText_eq (entry : String × String) :
    qualifierText entry = entry.1.toList ++ ['.'] := by
  unfold qualifierText
  rw [String.toList_append]
  rfl

theorem qualifierText_ne_nil (entry : String × String) : qualifierText entry ≠ [] := by
  rw [qualifierText_eq]
  exact List.append_ne_nil_of_right_ne_nil _ (List.cons_ne_nil _ _)

theorem boundary_qualifierText (entry : String × String) :
    isQualifierBoundary (qualifierText entry).getLast? = true := by
  rw [qualifierText_eq, List.getLast?_concat]
  rfl

theorem qualifierText_inj : qualifierText entry = qualifierText other ↔ entry.1 = other.1 := by
  unfold qualifierText
  rw [String.toList_inj, String.append_left_inj]

theorem canonicalText_of_ne (hne : entry.1 ≠ entry.2) (hcanonical : entry.2 ≠ "") :
    canonicalText entry = entry.2.toList ++ ['.'] := by
  unfold canonicalText
  rw [if_neg hne, if_neg hcanonical, String.toList_append]
  rfl

theorem startsBehind_canonicalText (entry : String × String) :
    StartsBehind isQualifierBoundary (canonicalText entry) := by
  unfold canonicalText
  split
  · exact Or.inr (boundary_qualifierText entry)
  · split
    · exact Or.inl rfl
    · exact Or.inr (boundary_qualifierText (entry.2, ""))

theorem qualifierText_eq_canonicalText_iff :
    qualifierText entry = canonicalText entry ↔ entry.1 = entry.2 := by
  unfold canonicalText
  split
  · rename_i hsame
    exact iff_of_true rfl hsame
  · rename_i hne
    refine iff_of_false (fun heq => ?_) hne
    split at heq
    · exact qualifierText_ne_nil entry heq
    · exact hne (qualifierText_inj.mp (show _ = qualifierText (entry.2, "") from heq))

theorem delimited_rewrites (aliases : Aliases) :
    ∀ rewrite ∈ rewrites aliases, Delimited isQualifierBoundary rewrite := by
  intro rewrite hmem
  obtain ⟨entry, _, heq⟩ := List.mem_map.mp hmem
  rw [← heq]
  exact ⟨qualifierText_ne_nil entry, boundary_qualifierText entry,
    startsBehind_canonicalText entry⟩

end Entries

/-! ## The passes of the code -/

section Passes
variable {needle replacement : List Char}

theorem replaceQualifierFrom_skip (text rest : List Char) (previous : Option Char) :
    replaceQualifierFrom needle replacement text.length previous (text ++ rest) =
      replaceQualifierFrom needle replacement 0 (text.getLast?.or previous) rest := by
  induction text generalizing previous with
  | nil => rfl
  | cons c text ih =>
      rw [List.length_cons, List.cons_append, replaceQualifierFrom, ih, getLast?_or_cons]

theorem replaceQualifierFrom_found (hne : needle ≠ []) (previous : Option Char)
    (rest : List Char) :
    replaceQualifierFrom needle replacement 0 previous (needle ++ rest) =
      (if isQualifierBoundary previous then replacement else needle) ++
        replaceQualifierFrom needle replacement 0 needle.getLast? rest := by
  cases needle with
  | nil => exact absurd rfl hne
  | cons c needle =>
      have hlead : (c :: needle).isPrefixOf (c :: (needle ++ rest)) = true :=
        List.isPrefixOf_iff_prefix.mpr (List.prefix_append (c :: needle) rest)
      rw [List.cons_append, replaceQualifierFrom, if_pos hlead, List.length_cons,
        Nat.add_sub_cancel, replaceQualifierFrom_skip, ← @Option.or_none _ (c :: needle).getLast?,
        getLast?_or_cons]

/-- The code passes over a whole occurrence that does not start behind a boundary, which
hides another occurrence only when the two overlap. -/
theorem replaceQualifierFrom_eq (hne : needle ≠ [])
    (hborder : ¬ Reaches isQualifierBoundary needle needle) (previous : Option Char)
    (text : List Char) :
    replaceQualifierFrom needle replacement 0 previous text =
      replaceFrom isQualifierBoundary needle replacement 0 previous text := by
  induction hn : text.length using Nat.strong_induction_on generalizing text previous with
  | _ n ih =>
      cases text with
      | nil => rfl
      | cons c rest =>
          rw [List.length_cons] at hn
          by_cases hlead : needle <+: c :: rest
          · obtain ⟨tail, htail⟩ := hlead
            have hpos := List.length_pos_of_ne_nil hne
            have hlength := congrArg List.length htail
            rw [List.length_append, List.length_cons] at hlength
            rw [← htail, replaceQualifierFrom_found hne, ih tail.length (by omega) _ _ rfl]
            by_cases hboundary : isQualifierBoundary previous = true
            · rw [replaceFrom_hit hne hboundary, if_pos hboundary]
            · rw [if_neg hboundary, replaceFrom_copy, getLast?_or hne]
              intro front back heq hback hstart hfound
              cases front with
              | nil => exact hboundary hstart
              | cons d front =>
                  rw [getLast?_or (List.cons_ne_nil d front)] at hstart
                  refine hborder ⟨d :: front, back, heq, List.cons_ne_nil d front, hback, hstart, ?_⟩
                  exact List.prefix_or_prefix_of_prefix (List.prefix_append back tail) hfound
          · have hmiss : needle.isPrefixOf (c :: rest) ≠ true := fun hprefix =>
              hlead (List.isPrefixOf_iff_prefix.mp hprefix)
            rw [replaceQualifierFrom, if_neg hmiss, replaceFrom_miss fun hhit => hlead hhit.2,
              ih rest.length (by omega) _ _ rfl]

theorem foldl_replaceQualifier {entries : Aliases}
    (hborder : ∀ entry ∈ entries, entry.1 ≠ entry.2 →
      ¬ Reaches isQualifierBoundary (qualifierText entry) (qualifierText entry)) (value : String) :
    (entries.foldl (fun out entry => if entry.1 = entry.2 then out
        else replaceQualifier out entry.1 entry.2) value).toList =
      rewriteInPasses isQualifierBoundary
        (entries.map fun entry => (qualifierText entry, canonicalText entry)) value.toList := by
  induction entries generalizing value with
  | nil => rfl
  | cons entry entries ih =>
      rw [List.forall_mem_cons] at hborder
      rw [List.foldl_cons, ih hborder.2, List.map_cons, rewriteInPasses, rewriteInPasses,
        List.foldl_cons]
      congr 1
      by_cases hsame : entry.1 = entry.2
      · rw [if_pos hsame, ← qualifierText_eq_canonicalText_iff.mpr hsame,
          replaceFrom_self (qualifierText_ne_nil entry)]
      · rw [if_neg hsame, ← replaceQualifierFrom_eq (qualifierText_ne_nil entry)
          (hborder.1 hsame)]
        unfold replaceQualifier canonicalText
        rw [String.toList_ofList, if_neg hsame]
        rfl

theorem applyAliases_toList {aliases : Aliases} (hborder : Unbordered aliases) (value : String) :
    (applyAliases value aliases).toList =
      rewriteInPasses isQualifierBoundary (rewrites aliases) value.toList :=
  foldl_replaceQualifier
    (fun entry hmem => hborder entry ((List.mem_insertionSort comesBefore).mp hmem)) value

/-- Aliases that read nothing written are replaced at once. -/
theorem applyAliases_eq {aliases : Aliases} (hborder : Unbordered aliases)
    (hunread : Unread aliases) (value : String) :
    applyAliases value aliases = substituteAll value aliases := by
  rw [← String.toList_inj, applyAliases_toList hborder, substituteAll, String.toList_ofList,
    target_rewriteOnce (delimited_rewrites aliases) hunread]

end Passes

/-! ## Qualifiers of FROM -/

def labelOr (label : Option (Printed Literal)) (otherwise : List String) : List String :=
  match label with
  | some label => [normalizeIdentifier label]
  | none => otherwise

/-- The entries of a label that stands for itself. -/
def labelEntries (label : Option (Printed Literal)) : Aliases :=
  match label with
  | some label => [(normalizeIdentifier label, normalizeIdentifier label)]
  | none => []

mutual

/-- The qualifiers under which the columns of a FROM item are named. -/
def factorQualifiers : TableFactor Literal → List String
  | .table name label => labelOr label [normalizeRelationName name]
  | .derived _ label | .tableFunction _ label | .function _ label | .unnest _ label =>
      labelOr label []
  | .nestedJoin inner label => labelOr label (tableQualifiers inner)
  | .pivot source label _ => labelOr label (factorQualifiers source)
  | .other _ => []

def tableQualifiers : TableWithJoins Literal → List String
  | .mk relation joins => factorQualifiers relation ++ joinQualifiers joins

def joinQualifiers : List (Join Literal) → List String
  | [] => []
  | .mk relation _ :: joins => factorQualifiers relation ++ joinQualifiers joins

end

def fromQualifiers (tables : List (TableWithJoins Literal)) : List String :=
  tables.flatMap tableQualifiers

mutual

/-- The entries in the order in which they are inserted. -/
def factorEntries : TableFactor Literal → Aliases
  | .table name label =>
      (normalizeRelationName name, relationLeaf (normalizeRelationName name)) ::
        (labelEntries label).map fun entry =>
          (entry.1, relationLeaf (normalizeRelationName name))
  | .derived _ label | .tableFunction _ label | .function _ label | .unnest _ label =>
      labelEntries label
  | .nestedJoin inner label => tableEntries inner ++ labelEntries label
  | .pivot source label _ => factorEntries source ++ labelEntries label
  | .other _ => []

def tableEntries : TableWithJoins Literal → Aliases
  | .mk relation joins => factorEntries relation ++ joinEntries joins

def joinEntries : List (Join Literal) → Aliases
  | [] => []
  | .mk relation _ :: joins => factorEntries relation ++ joinEntries joins

end

def insertAll (aliases entries : Aliases) : Aliases :=
  entries.foldl (fun aliases entry => insertAlias aliases entry.1 entry.2) aliases

section Qualifiers
variable {aliases entries : Aliases}

theorem insertAll_append (aliases entries entries' : Aliases) :
    insertAll aliases (entries ++ entries') = insertAll (insertAll aliases entries) entries' :=
  List.foldl_append

theorem registerLabel_eq (label : Option (Printed Literal)) (aliases : Aliases) :
    registerLabel label aliases = insertAll aliases (labelEntries label) := by
  cases label <;> rfl

mutual

theorem registerTableFactorAliases_eq : ∀ (factor : TableFactor Literal) (aliases : Aliases),
    registerTableFactorAliases factor aliases = insertAll aliases (factorEntries factor)
  | .table name label, aliases => by
      cases label <;> rw [registerTableFactorAliases, factorEntries] <;> rfl
  | .derived _ label, aliases | .tableFunction _ label, aliases | .function _ label, aliases
  | .unnest _ label, aliases => by
      rw [registerTableFactorAliases, factorEntries, registerLabel_eq]
  | .nestedJoin inner label, aliases => by
      rw [registerTableFactorAliases, factorEntries, registerLabel_eq,
        registerTableAliases_eq inner, insertAll_append]
  | .pivot source label _, aliases => by
      rw [registerTableFactorAliases, factorEntries, registerLabel_eq,
        registerTableFactorAliases_eq source, insertAll_append]
  | .other _, aliases => by
      rw [registerTableFactorAliases, factorEntries]
      rfl

theorem registerTableAliases_eq : ∀ (table : TableWithJoins Literal) (aliases : Aliases),
    registerTableAliases table aliases = insertAll aliases (tableEntries table)
  | .mk relation joins, aliases => by
      rw [registerTableAliases, tableEntries, registerTableFactorAliases_eq relation,
        registerJoinAliases_eq joins, insertAll_append]

theorem registerJoinAliases_eq : ∀ (joins : List (Join Literal)) (aliases : Aliases),
    registerJoinAliases joins aliases = insertAll aliases (joinEntries joins)
  | [], aliases => by
      rw [registerJoinAliases, joinEntries]
      rfl
  | .mk relation _ :: joins, aliases => by
      rw [registerJoinAliases, joinEntries, registerTableFactorAliases_eq relation,
        registerJoinAliases_eq joins, insertAll_append]

end

theorem mem_labelOr {label : Option (Printed Literal)} {otherwise : List String} {q : String}
    (h : q ∈ labelOr label otherwise) :
    q ∈ (labelEntries label).map Prod.fst ∨ (label = none ∧ q ∈ otherwise) := by
  cases label with
  | none => exact Or.inr ⟨rfl, h⟩
  | some label => exact Or.inl h

mutual

theorem factorQualifiers_subset : ∀ (factor : TableFactor Literal) {q : String},
    q ∈ factorQualifiers factor → q ∈ (factorEntries factor).map Prod.fst
  | .table name label, q, h => by
      rw [factorQualifiers] at h
      rw [factorEntries, List.map_cons, List.map_map, List.mem_cons]
      exact (mem_labelOr h).symm.imp (fun hname => List.mem_singleton.mp hname.2) id
  | .derived _ label, q, h | .tableFunction _ label, q, h | .function _ label, q, h
  | .unnest _ label, q, h => by
      rw [factorQualifiers] at h
      rw [factorEntries]
      exact (mem_labelOr h).resolve_right fun hnone => List.not_mem_nil hnone.2
  | .nestedJoin inner label, q, h => by
      rw [factorQualifiers] at h
      rw [factorEntries, List.map_append, List.mem_append]
      exact (mem_labelOr h).symm.imp_left fun hinner => tableQualifiers_subset inner hinner.2
  | .pivot source label _, q, h => by
      rw [factorQualifiers] at h
      rw [factorEntries, List.map_append, List.mem_append]
      exact (mem_labelOr h).symm.imp_left fun hsource => factorQualifiers_subset source hsource.2
  | .other _, q, h => by
      rw [factorQualifiers] at h
      cases h

theorem tableQualifiers_subset : ∀ (table : TableWithJoins Literal) {q : String},
    q ∈ tableQualifiers table → q ∈ (tableEntries table).map Prod.fst
  | .mk relation joins, q, h => by
      rw [tableQualifiers, List.mem_append] at h
      rw [tableEntries, List.map_append, List.mem_append]
      exact h.imp (factorQualifiers_subset relation) (joinQualifiers_subset joins)

theorem joinQualifiers_subset : ∀ (joins : List (Join Literal)) {q : String},
    q ∈ joinQualifiers joins → q ∈ (joinEntries joins).map Prod.fst
  | [], q, h => by
      rw [joinQualifiers] at h
      cases h
  | .mk relation _ :: joins, q, h => by
      rw [joinQualifiers, List.mem_append] at h
      rw [joinEntries, List.map_append, List.mem_append]
      exact h.imp (factorQualifiers_subset relation) (joinQualifiers_subset joins)

end

/-- The registered aliases, before reused tables are looked at. -/
theorem foldl_registerTableAliases (tables : List (TableWithJoins Literal)) :
    tables.foldl (fun aliases table => registerTableAliases table aliases) aliases =
      insertAll aliases (tables.flatMap tableEntries) := by
  induction tables generalizing aliases with
  | nil => rfl
  | cons table tables ih =>
      rw [List.foldl_cons, ih, registerTableAliases_eq, List.flatMap_cons, insertAll_append]

theorem keys_insertAlias (aliases : Aliases) (key canonical : String) :
    (insertAlias aliases key canonical).map Prod.fst =
      (aliases.map Prod.fst).filter (· != key) ++ [key] := by
  unfold insertAlias
  rw [List.map_append, List.filter_map]
  rfl

theorem nodup_insertAll (hnodup : (aliases.map Prod.fst).Nodup) :
    ((insertAll aliases entries).map Prod.fst).Nodup := by
  induction entries generalizing aliases with
  | nil => exact hnodup
  | cons entry entries ih =>
      refine ih ?_
      rw [keys_insertAlias, List.nodup_append]
      refine ⟨hnodup.filter _, List.nodup_singleton _, fun a ha b hb heq => ?_⟩
      have hne := (List.mem_filter.mp ha).2
      rw [heq, List.mem_singleton.mp hb, bne_self_eq_false] at hne
      cases hne

theorem mem_keys_insertAll {q : String}
    (h : q ∈ aliases.map Prod.fst ∨ q ∈ entries.map Prod.fst) :
    q ∈ (insertAll aliases entries).map Prod.fst := by
  induction entries generalizing aliases with
  | nil => exact h.resolve_right List.not_mem_nil
  | cons entry entries ih =>
      refine ih ?_
      rw [keys_insertAlias, List.mem_append, List.mem_filter, List.mem_singleton, bne_iff_ne]
      rw [List.map_cons, List.mem_cons] at h
      by_cases heq : q = entry.1
      · exact Or.inl (Or.inr heq)
      · exact h.imp (fun hmem => Or.inl ⟨hmem, heq⟩) fun hmem => hmem.resolve_left heq

theorem keys_preserveReusedTableAliases (aliases : Aliases) :
    (preserveReusedTableAliases aliases).map Prod.fst = aliases.map Prod.fst := by
  unfold preserveReusedTableAliases
  rw [List.map_map]
  refine List.map_congr_left fun entry _ => ?_
  rw [Function.comp_apply]
  split <;> rfl

theorem nodup_qualifierAliases (tables : List (TableWithJoins Literal)) :
    ((qualifierAliases tables).map Prod.fst).Nodup := by
  unfold qualifierAliases
  rw [keys_preserveReusedTableAliases, foldl_registerTableAliases]
  exact nodup_insertAll List.nodup_nil

/-- Every qualifier of FROM has an entry. -/
theorem exists_canonical {tables : List (TableWithJoins Literal)} {q : String}
    (h : q ∈ fromQualifiers tables) : ∃ canonical, (q, canonical) ∈ qualifierAliases tables := by
  have hkey : q ∈ (qualifierAliases tables).map Prod.fst := by
    unfold qualifierAliases
    rw [keys_preserveReusedTableAliases, foldl_registerTableAliases]
    refine mem_keys_insertAll (Or.inr ?_)
    obtain ⟨table, htable, hq⟩ := List.mem_flatMap.mp h
    obtain ⟨entry, hentry, hkey⟩ := List.mem_map.mp (tableQualifiers_subset table hq)
    exact List.mem_map.mpr ⟨entry, List.mem_flatMap.mpr ⟨table, htable, hentry⟩, hkey⟩
  obtain ⟨entry, hentry, heq⟩ := List.mem_map.mp hkey
  exact ⟨entry.2, by rwa [← heq]⟩

end Qualifiers

/-! ## A qualifier alone -/

section Alone
variable {aliases : Aliases} {entry other : String × String}

theorem pairwise_orderedInsert {entries : Aliases} (entry : String × String)
    (h : entries.Pairwise fun a b => b.1.utf8ByteSize ≤ a.1.utf8ByteSize) :
    (entries.orderedInsert comesBefore entry).Pairwise fun a b =>
      b.1.utf8ByteSize ≤ a.1.utf8ByteSize := by
  induction entries with
  | nil => exact List.pairwise_singleton _ _
  | cons first rest ih =>
      rw [List.pairwise_cons] at h
      by_cases hbefore : comesBefore entry first
      · rw [List.orderedInsert_cons_of_le _ _ hbefore, List.pairwise_cons, List.pairwise_cons]
        have hfirst : first.1.utf8ByteSize ≤ entry.1.utf8ByteSize := by
          unfold comesBefore at hbefore
          omega
        refine ⟨fun later hlater => ?_, h⟩
        cases List.mem_cons.mp hlater with
        | inl heq => rwa [heq]
        | inr hmem => exact (h.1 later hmem).trans hfirst
      · rw [List.orderedInsert_of_not_le _ _ hbefore, List.pairwise_cons]
        refine ⟨fun later hlater => ?_, ih h.2⟩
        cases List.mem_cons.mp ((List.perm_orderedInsert _ entry rest).mem_iff.mp hlater) with
        | inl heq =>
            rw [heq]
            unfold comesBefore at hbefore
            omega
        | inr hmem => exact h.1 later hmem

/-- Longer aliases come first. -/
theorem pairwise_inOrder (aliases : Aliases) :
    (inOrder aliases).Pairwise fun a b => b.1.utf8ByteSize ≤ a.1.utf8ByteSize := by
  unfold inOrder
  induction aliases with
  | nil => exact List.Pairwise.nil
  | cons entry aliases ih => exact pairwise_orderedInsert entry ih

/-- A qualifier is not found inside another one that is no longer. -/
theorem not_found_inside (hsize : entry.1.utf8ByteSize ≤ other.1.utf8ByteSize)
    (hne : other.1 ≠ entry.1) {front back : List Char}
    (hsplit : qualifierText entry = front ++ back) : ¬ qualifierText other <+: back := by
  rintro ⟨tail, htail⟩
  have hstring : entry.1 ++ "." = String.ofList front ++ (other.1 ++ "." ++ String.ofList tail) := by
    rw [← String.toList_inj, String.toList_append (s := String.ofList front), String.toList_ofList,
      String.toList_append (s := other.1 ++ "."), String.toList_ofList]
    exact hsplit.trans (congrArg (front ++ ·) htail.symm)
  have hbytes := congrArg String.utf8ByteSize hstring
  rw [String.utf8ByteSize_append, String.utf8ByteSize_append, String.utf8ByteSize_append,
    String.utf8ByteSize_append] at hbytes
  have hfront : String.ofList front = "" := String.utf8ByteSize_eq_zero_iff.mp (by omega)
  have hend : String.ofList tail = "" := String.utf8ByteSize_eq_zero_iff.mp (by omega)
  rw [hfront, hend, String.empty_append, String.append_empty, String.append_left_inj] at hstring
  exact hne hstring.symm

theorem rewriteOnce_key (hnodup : (aliases.map Prod.fst).Nodup) (hentry : entry ∈ aliases) :
    rewriteOnce isQualifierBoundary (rewrites aliases) ((qualifierText entry).map .kept) =
      [.written (qualifierText entry) (canonicalText entry)] := by
  have hmem : entry ∈ inOrder aliases := (List.mem_insertionSort comesBefore).mpr hentry
  obtain ⟨before, after, hsplit⟩ := List.append_of_mem hmem
  have hsorted := pairwise_inOrder aliases
  have hdistinct : ((inOrder aliases).map Prod.fst).Nodup :=
    ((List.perm_insertionSort comesBefore aliases).map Prod.fst).nodup_iff.mpr hnodup
  rw [hsplit, List.pairwise_append] at hsorted
  rw [hsplit, List.map_append, List.nodup_append] at hdistinct
  unfold rewrites
  rw [hsplit, List.map_append, List.map_cons]
  refine @rewriteOnce_word _ _ isQualifierBoundary _ _ (qualifierText entry, canonicalText entry)
    (fun rewrite hrewrite => ?_) (fun rewrite hrewrite front back heq _ => ?_) rfl
  · obtain ⟨later, _, heq⟩ := List.mem_map.mp
      (show rewrite ∈ (entry :: after).map fun entry => (qualifierText entry, canonicalText entry)
        from hrewrite)
    rw [← heq]
    exact qualifierText_ne_nil later
  · obtain ⟨earlier, hearlier, hsame⟩ := List.mem_map.mp hrewrite
    rw [← hsame]
    refine not_found_inside (hsorted.2.2 earlier hearlier entry List.mem_cons_self) ?_ heq
    exact hdistinct.2.2 earlier.1 (List.mem_map_of_mem hearlier) entry.1
      (List.mem_map_of_mem List.mem_cons_self)

/-- A qualifier of the map is replaced by its canonical name. -/
theorem substituteAll_key (hnodup : (aliases.map Prod.fst).Nodup) (hentry : entry ∈ aliases) :
    substituteAll (entry.1 ++ ".") aliases = String.ofList (canonicalText entry) := by
  unfold substituteAll
  have hkey := rewriteOnce_key hnodup hentry
  unfold qualifierText at hkey
  rw [hkey, List.flatMap_singleton]
  rfl

theorem canonical_eq_of_text (h : canonicalText entry = canonicalText other) :
    entry.2 = other.2 := by
  have hcases : ∀ entry, canonicalText entry = qualifierText (entry.2, "") ∨
      (canonicalText entry = [] ∧ entry.2 = "") := by
    intro entry
    unfold canonicalText
    split
    · rename_i hsame
      exact Or.inl (qualifierText_inj.mpr hsame)
    · split
      · rename_i hempty
        exact Or.inr ⟨rfl, hempty⟩
      · exact Or.inl rfl
  cases hcases entry with
  | inl hentry =>
      cases hcases other with
      | inl hother =>
          rw [hentry, hother] at h
          exact qualifierText_inj.mp h
      | inr hother =>
          rw [hentry, hother.1] at h
          exact absurd h (qualifierText_ne_nil _)
  | inr hentry =>
      cases hcases other with
      | inl hother =>
          rw [hentry.1, hother] at h
          exact absurd h.symm (qualifierText_ne_nil _)
      | inr hother => rw [hentry.2, hother.2]

end Alone

/-! ## Tables that stay apart -/

/-- No two qualifiers of FROM have one canonical name. -/
def DistinctNames (tables : List (TableWithJoins Literal)) : Prop :=
  ∀ q ∈ fromQualifiers tables, ∀ q' ∈ fromQualifiers tables, q ≠ q' →
    ∀ canonical, (q, canonical) ∈ qualifierAliases tables →
      (q', canonical) ∉ qualifierAliases tables

/-- No two qualifiers of FROM come out as one. -/
def KeptApart (tables : List (TableWithJoins Literal)) : Prop :=
  ∀ q ∈ fromQualifiers tables, ∀ q' ∈ fromQualifiers tables, q ≠ q' →
    applyAliases (q ++ ".") (qualifierAliases tables) ≠
      applyAliases (q' ++ ".") (qualifierAliases tables)

theorem keptApart_of_distinctNames {tables : List (TableWithJoins Literal)}
    (hborder : Unbordered (qualifierAliases tables)) (hunread : Unread (qualifierAliases tables))
    (hdistinct : DistinctNames tables) : KeptApart tables := by
  intro q hq q' hq' hne heq
  obtain ⟨canonical, hmem⟩ := exists_canonical hq
  obtain ⟨canonical', hmem'⟩ := exists_canonical hq'
  have hnodup := nodup_qualifierAliases tables
  rw [applyAliases_eq hborder hunread, applyAliases_eq hborder hunread,
    substituteAll_key hnodup hmem, substituteAll_key hnodup hmem', String.ofList_inj] at heq
  have hsame : canonical = canonical' := canonical_eq_of_text heq
  exact hdistinct q hq q' hq' hne canonical hmem (hsame ▸ hmem')

end DbtNova.AliasSubstitution
