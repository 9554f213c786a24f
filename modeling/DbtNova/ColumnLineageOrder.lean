import DbtNova.ColumnLineageRows
import DbtNova.ColumnMatchOrder

/-!
# Column lineage and the order of hash maps

The columns that match, and how well, do not depend on the orders in which hash maps are
iterated. So all runs stop at the same step of the search. They differ in which rows of that
step are kept, and in the aliases that their explanations show.
-/
namespace DbtNova.ColumnLineage
open ColumnMatching BreadthFirst

section Matches
variable {K : Type*} [Field K] [LinearOrder K] {search : ManifestSearch K} {request : Request}

/-- The arguments of the call for a step of the search. -/
def callInput (search : ManifestSearch K) (request : Request) (source target : String)
    (current relatedEntity : Entity) : MatchInput :=
  matchInput search request source request.startColumn target current relatedEntity

theorem acceptedMatches_eq (order : HashOrder search request) {source target : String}
    {current relatedEntity : Entity} (hsource : search.getEntity source = some current)
    (htarget : search.getEntity target = some relatedEntity) :
    acceptedMatches search request order source target =
      (matchColumn search.out search.config
        (callInput search request source target current relatedEntity)
        (order.call source target)).filter (accepts search request) := by
  unfold acceptedMatches
  rw [hsource, htarget]
  rfl

theorem mem_acceptedMatches {order : HashOrder search request} {source target : String}
    {current relatedEntity : Entity} (hsource : search.getEntity source = some current)
    (htarget : search.getEntity target = some relatedEntity) {m : ColumnMatch K} :
    m ∈ acceptedMatches search request order source target ↔
      matchFor (bestMatches search.out search.config
        (callInput search request source target current relatedEntity)
        (order.call source target)) m.columnName = some m ∧ accepts search request m = true := by
  rw [acceptedMatches_eq order hsource htarget, List.mem_filter, mem_matchColumn]

theorem acceptedMatches_columns (order : HashOrder search request) (source target : String) :
    ((acceptedMatches search request order source target).map ColumnMatch.columnName).Nodup := by
  unfold acceptedMatches
  split
  · exact (matchColumn_columns _).sublist (List.filter_sublist.map _)
  · exact List.nodup_nil

/-- Every order accepts the same columns. -/
theorem acceptedMatches_columns_perm (order order' : HashOrder search request)
    (source target : String) :
    ((acceptedMatches search request order source target).map ColumnMatch.columnName).Perm
      ((acceptedMatches search request order' source target).map ColumnMatch.columnName) := by
  rw [List.perm_ext_iff_of_nodup (acceptedMatches_columns order source target)
    (acceptedMatches_columns order' source target)]
  have hsub : ∀ (order order' : HashOrder search request) (col : String),
      col ∈ (acceptedMatches search request order source target).map ColumnMatch.columnName →
      col ∈ (acceptedMatches search request order' source target).map ColumnMatch.columnName := by
    intro order order' col hcol
    obtain ⟨m, hm, rfl⟩ := List.mem_map.mp hcol
    cases hsource : search.getEntity source with
    | none =>
        unfold acceptedMatches at hm
        rw [hsource] at hm
        exact absurd hm List.not_mem_nil
    | some current =>
        cases htarget : search.getEntity target with
        | none =>
            unfold acceptedMatches at hm
            rw [hsource, htarget] at hm
            exact absurd hm List.not_mem_nil
        | some relatedEntity =>
            obtain ⟨hmatch, haccepts⟩ := (mem_acceptedMatches hsource htarget).mp hm
            have hconfidence := matchFor_confidence search.out search.config
              (callInput search request source target current relatedEntity)
              (order.call source target) (order'.call source target) m.columnName
            rw [hmatch, Option.map_some] at hconfidence
            obtain ⟨m', hm', hsame⟩ := Option.map_eq_some_iff.mp hconfidence.symm
            have hname := matchFor_column hm'
            refine List.mem_map.mpr ⟨m', (mem_acceptedMatches hsource htarget).mpr ⟨?_, ?_⟩, hname⟩
            · rw [hname, hm']
            · unfold accepts at haccepts ⊢
              rw [hsame]
              exact haccepts
  intro col
  exact ⟨hsub order order' col, hsub order' order col⟩

theorem length_acceptedMatches (order order' : HashOrder search request)
    (source target : String) :
    (acceptedMatches search request order source target).length =
      (acceptedMatches search request order' source target).length := by
  have hperm := acceptedMatches_columns_perm order order' source target
  rw [← List.length_map ColumnMatch.columnName, hperm.length_eq, List.length_map]

theorem length_rowsOf (order order' : HashOrder search request) (e : Step String) :
    (rowsOf search request order e).length = (rowsOf search request order' e).length := by
  unfold rowsOf
  split
  · rw [List.length_map, List.length_map, length_acceptedMatches order order']
  · rfl

theorem length_flatMap_rowsOf (order order' : HashOrder search request)
    (steps : List (Step String)) :
    (steps.flatMap (rowsOf search request order)).length =
      (steps.flatMap (rowsOf search request order')).length := by
  induction steps with
  | nil => rfl
  | cons e steps ih =>
      rw [List.flatMap_cons, List.flatMap_cons, List.length_append, List.length_append, ih,
        length_rowsOf order order']

/-! ## Where the traversal stops -/

/-- How many rows these steps would have. -/
def matchTotal (search : ManifestSearch K) (request : Request) (steps : List (Step String)) : ℕ :=
  (steps.flatMap (rowsOf search request (insertionOrder search request))).length

/-- No limit is reached at these steps. -/
def Unlimited (search : ManifestSearch K) (request : Request) (steps : List (Step String)) :
    Prop :=
  matchTotal search request steps < request.maxResults ∧
    ∀ e ∈ steps, e.waiting < request.maxCandidates

theorem matchTotal_snoc (steps : List (Step String)) (e : Step String) :
    matchTotal search request (steps ++ [e]) = matchTotal search request steps +
      (rowsOf search request (insertionOrder search request) e).length := by
  unfold matchTotal
  rw [List.flatMap_append, List.flatMap_singleton, List.length_append]

/-- A limit is reached at the same step in every order. -/
theorem report_truncated_iff (order : HashOrder search request) (hmax : 0 < request.maxResults)
    (steps : List (Step String)) :
    (report search request order steps).truncated = false ↔ Unlimited search request steps := by
  induction steps using List.reverseRecOn with
  | nil => exact iff_of_true rfl ⟨hmax, fun _ he => absurd he List.not_mem_nil⟩
  | append_singleton steps e ih =>
      have hlength : (steps.flatMap (rowsOf search request order)).length =
          matchTotal search request steps := length_flatMap_rowsOf _ _ steps
      have hrows := length_rowsOf order (insertionOrder search request) e
      unfold Unlimited at ih ⊢
      rw [report_snoc, matchTotal_snoc]
      unfold reportStep
      cases htruncated : (report search request order steps).truncated with
      | true =>
          rw [if_pos rfl, htruncated]
          apply iff_of_false Bool.false_ne_true.symm
          intro h
          have hfalse := ih.mpr ⟨by omega, fun b hb => h.2 b (List.mem_append_left _ hb)⟩
          rw [hfalse] at htruncated
          contradiction
      | false =>
          have hunlimited := ih.mp htruncated
          rw [if_neg Bool.false_ne_true]
          dsimp only
          rw [report_going steps htruncated, Bool.or_eq_false_iff, decide_eq_false_iff_not,
            decide_eq_false_iff_not, List.length_append, hlength, hrows]
          constructor
          · intro h
            refine ⟨by omega, ?_⟩
            intro b hb
            cases List.mem_append.mp hb with
            | inl hold => exact hunlimited.2 b hold
            | inr hlast =>
                rw [List.mem_singleton.mp hlast]
                omega
          · intro h
            have hwaiting := h.2 e (List.mem_append_right _ (List.mem_singleton_self e))
            exact ⟨by omega, by omega⟩

/-- The rows of a step whose rows all fit. -/
theorem report_fitting (order : HashOrder search request) (hmax : 0 < request.maxResults)
    {steps : List (Step String)} {e : Step String} (hsteps : Unlimited search request steps)
    (hfits : matchTotal search request (steps ++ [e]) ≤ request.maxResults) :
    (report search request order (steps ++ [e])).results =
      (steps ++ [e]).flatMap (rowsOf search request order) := by
  have hgoing := (report_truncated_iff order hmax steps).mpr hsteps
  have hlength : ((steps ++ [e]).flatMap (rowsOf search request order)).length =
      matchTotal search request (steps ++ [e]) := length_flatMap_rowsOf _ _ _
  rw [report_snoc]
  unfold reportStep
  rw [hgoing, if_neg Bool.false_ne_true]
  dsimp only
  rw [report_going steps hgoing]
  rw [List.flatMap_append, List.flatMap_singleton] at hlength ⊢
  exact List.take_of_length_le (by omega)

end Matches

/-! ## The same rows in every order -/

section Free
variable {K : Type*} [Field K] [LinearOrder K] {search : ManifestSearch K} {request : Request}

/-- The rows of the step at which a limit is reached all fit, and no alias map says two things
about a column that it decides. -/
structure OrderFree (search : ManifestSearch K) (request : Request) : Prop where
  fits : ∀ before e behind, searchTree search request = before ++ e :: behind →
    Unlimited search request before →
    matchTotal search request (before ++ [e]) ≤ request.maxResults
  agree : ∀ before e behind, searchTree search request = before ++ e :: behind →
    Unlimited search request before →
    ∀ current relatedEntity, search.getEntity e.source = some current →
      search.getEntity e.target = some relatedEntity →
      ∀ m ∈ acceptedMatches search request (insertionOrder search request) e.source e.target,
        m.matchReason = "sql_alias" →
        AliasesAgree K search.out
          (callInput search request e.source e.target current relatedEntity) m.columnName

theorem rowsOf_perm (h : OrderFree search request) (order : HashOrder search request)
    {before behind : List (Step String)} {e : Step String}
    (hsplit : searchTree search request = before ++ e :: behind)
    (hbefore : Unlimited search request before) :
    (rowsOf search request order e).Perm
      (rowsOf search request (insertionOrder search request) e) := by
  have hspec := searchTree_spec search request
  have he : e ∈ searchTree search request := by
    rw [hsplit]
    exact List.mem_append_right _ List.mem_cons_self
  obtain ⟨-, hsource, htarget⟩ := mem_storedRelated.mp (hspec.edge e he).1
  obtain ⟨current, hcurrent⟩ := Option.isSome_iff_exists.mp hsource
  obtain ⟨relatedEntity, hrelated⟩ := Option.isSome_iff_exists.mp htarget
  unfold rowsOf
  rw [hrelated]
  apply List.Perm.map
  apply List.Perm.symm
  apply List.Subperm.perm_of_length_le
  · apply List.subperm_of_subset
    · exact List.Nodup.of_map _ (acceptedMatches_columns _ _ _)
    · intro m hm
      obtain ⟨hmatch, haccepts⟩ := (mem_acceptedMatches hcurrent hrelated).mp hm
      refine (mem_acceptedMatches hcurrent hrelated).mpr ⟨?_, haccepts⟩
      exact matchFor_same hmatch
        (h.agree before e behind hsplit hbefore current relatedEntity hcurrent hrelated m hm)
  · exact (length_acceptedMatches _ _ _ _).le

theorem report_perm (h : OrderFree search request) (order : HashOrder search request)
    (hmax : 0 < request.maxResults) {steps behind : List (Step String)}
    (hsplit : searchTree search request = steps ++ behind) :
    (report search request order steps).results.Perm
      (report search request (insertionOrder search request) steps).results := by
  induction steps using List.reverseRecOn generalizing behind with
  | nil => exact List.Perm.refl _
  | append_singleton steps e ih =>
      rw [List.append_assoc, List.singleton_append] at hsplit
      by_cases hsteps : Unlimited search request steps
      · have hfits := h.fits steps e behind hsplit hsteps
        rw [report_fitting order hmax hsteps hfits,
          report_fitting (insertionOrder search request) hmax hsteps hfits,
          List.flatMap_append, List.flatMap_append, List.flatMap_singleton,
          List.flatMap_singleton]
        have hgoing := ih hsplit
        rw [report_going steps ((report_truncated_iff order hmax steps).mpr hsteps),
          report_going steps ((report_truncated_iff _ hmax steps).mpr hsteps)] at hgoing
        exact hgoing.append (rowsOf_perm h order hsplit hsteps)
      · have hstopped : ∀ order : HashOrder search request,
            (report search request order (steps ++ [e])).results =
              (report search request order steps).results := by
          intro order
          rw [report_snoc, reportStep_truncated]
          exact (Bool.not_eq_false _).mp
            (fun hfalse => hsteps ((report_truncated_iff order hmax steps).mp hfalse))
        rw [hstopped, hstopped]
        exact ih hsplit

/-- An answer has one row for a column of an entity. -/
theorem report_unique (order : HashOrder search request) {row row' : LineageRow K}
    (hrow : row ∈ (report search request order (searchTree search request)).results)
    (hrow' : row' ∈ (report search request order (searchTree search request)).results)
    (hentity : row.uniqueId = row'.uniqueId) (hcolumn : row.column = row'.column) :
    row = row' := by
  have hspec := searchTree_spec search request
  have hstep : ∀ row ∈ (report search request order (searchTree search request)).results,
      ∃ e ∈ searchTree search request, row ∈ rowsOf search request order e := by
    intro row hrow
    obtain ⟨before, e, behind, hsplit, -, hfrom⟩ := of_mem_report hrow
    refine ⟨e, ?_, hfrom⟩
    rw [hsplit]
    exact List.mem_append_right _ List.mem_cons_self
  obtain ⟨e, he, hfrom⟩ := hstep row hrow
  obtain ⟨e', he', hfrom'⟩ := hstep row' hrow'
  obtain ⟨relatedEntity, hrelated, m, hm, rfl⟩ := mem_rowsOf.mp hfrom
  obtain ⟨relatedEntity', hrelated', m', hm', rfl⟩ := mem_rowsOf.mp hfrom'
  have hsame := hspec.unique he he' hentity
  subst hsame
  rw [hrelated] at hrelated'
  cases hrelated'
  rw [List.inj_on_of_nodup_map (acceptedMatches_columns order _ _) hm hm' hcolumn]

end Free

section Compare
variable {K : Type*} [LinearOrder K]

instance : Std.TransCmp (compareRows (K := K)) :=
  inferInstanceAs (Std.TransCmp (compareLex (compareOn LineageRow.depth)
    (compareLex (fun a b => compareOn LineageRow.score b a)
      (compareLex (compareOn LineageRow.uniqueId) (compareOn LineageRow.column)))))

theorem compareRows_eq {a b : LineageRow K} (h : compareRows a b = .eq) :
    a.uniqueId = b.uniqueId ∧ a.column = b.column := by
  unfold compareRows at h
  rw [Ordering.then_eq_eq, Ordering.then_eq_eq, Ordering.then_eq_eq] at h
  exact ⟨Std.LawfulEqOrd.eq_of_compare h.2.2.1, Std.LawfulEqOrd.eq_of_compare h.2.2.2⟩

end Compare

section Free
variable {K : Type*} [Field K] [LinearOrder K] {search : ManifestSearch K} {request : Request}

theorem answerOf_free (h : OrderFree search request) (hmax : 0 < request.maxResults)
    (order : HashOrder search request) :
    answerOf order = answerOf (insertionOrder search request) := by
  have hperm := report_perm h order hmax (List.append_nil _).symm
  have htruncated : (report search request order (searchTree search request)).truncated =
      (report search request (insertionOrder search request)
        (searchTree search request)).truncated := by
    have hiff := (report_truncated_iff order hmax (searchTree search request)).trans
      (report_truncated_iff (insertionOrder search request) hmax (searchTree search request)).symm
    exact Bool.eq_iff_iff.mpr (by
      rw [← Bool.not_eq_false, ← Bool.not_eq_false]
      exact not_congr hiff)
  unfold answerOf
  rw [htruncated, StableSort.sort_eq_of_perm hperm]
  intro row hrow row' hrow' heq
  obtain ⟨hentity, hcolumn⟩ := compareRows_eq heq
  exact report_unique order hrow hrow' hentity hcolumn

end Free

/-! ## Orders that tell the difference -/

section Tell
variable {K : Type*} [Field K] [LinearOrder K] {search : ManifestSearch K} {request : Request}

theorem entries_perm (aliases : AliasMap) : aliases.entries.Perm aliases.entries :=
  List.Perm.refl _

/-- The matches are handed out backwards. -/
def reversedValues (search : ManifestSearch K) (request : Request) :
    HashOrder search request where
  call := fun _ _ => ⟨AliasMap.entries, entries_perm, List.reverse, List.reverse_perm⟩
  stored := fun _ _ _ _ _ _ _ => rfl

def toFront (entry : String × String) (entries : List (String × String)) :
    List (String × String) :=
  if entry ∈ entries then entry :: entries.erase entry else entries

/-- An alias comes first in every map that has it. -/
def aliasFirst (search : ManifestSearch K) (request : Request) (entry : String × String) :
    HashOrder search request where
  call := fun _ _ =>
    { aliases := fun aliases => toFront entry aliases.entries
      aliases_perm := by
        intro aliases
        unfold toFront
        split
        · rename_i hmem
          exact (List.perm_cons_erase hmem).symm
        · exact List.Perm.refl _
      values := id
      values_perm := List.Perm.refl }
  stored := fun _ _ _ _ _ _ _ => rfl

theorem target_of_mem_rowsOf {order : HashOrder search request} {e : Step String}
    {row : LineageRow K} (h : row ∈ rowsOf search request order e) : row.uniqueId = e.target := by
  obtain ⟨relatedEntity, -, m, -, rfl⟩ := mem_rowsOf.mp h
  rfl

theorem rowsOf_nodup (order : HashOrder search request) (e : Step String) :
    (rowsOf search request order e).Nodup := by
  apply List.Nodup.of_map LineageRow.column
  unfold rowsOf
  split
  · rw [List.map_map]
    exact acceptedMatches_columns order e.source e.target
  · exact List.nodup_nil

theorem rowsOf_reversed (e : Step String) :
    rowsOf search request (reversedValues search request) e =
      (rowsOf search request (insertionOrder search request) e).reverse := by
  have hmatches : acceptedMatches search request (reversedValues search request) e.source
      e.target =
        (acceptedMatches search request (insertionOrder search request) e.source
          e.target).reverse := by
    unfold acceptedMatches
    split
    · rw [← List.filter_reverse]
      rfl
    · rfl
  unfold rowsOf
  split
  · rw [hmatches, List.map_reverse]
  · rfl

/-- The rows of the step at which the traversal stops. -/
theorem report_stopped (order : HashOrder search request) (hmax : 0 < request.maxResults)
    {before behind : List (Step String)} {e : Step String}
    (hsplit : searchTree search request = before ++ e :: behind)
    (hbefore : Unlimited search request before)
    (hfull : request.maxResults ≤ matchTotal search request (before ++ [e])) :
    (report search request order (searchTree search request)).results =
      before.flatMap (rowsOf search request order) ++
        (rowsOf search request order e).take
          (request.maxResults - matchTotal search request before) := by
  have hgoing := (report_truncated_iff order hmax before).mpr hbefore
  have hstop : (report search request order (before ++ [e])).truncated = true := by
    apply (Bool.not_eq_false _).mp
    intro hfalse
    have hlt := ((report_truncated_iff order hmax (before ++ [e])).mp hfalse).1
    omega
  have hlength : (before.flatMap (rowsOf search request order)).length =
      matchTotal search request before := length_flatMap_rowsOf _ _ _
  have hfront : before ++ [e] <+: searchTree search request := by
    rw [hsplit]
    exact ⟨behind, by simp⟩
  rw [report_behind hfront hstop, report_snoc]
  unfold reportStep
  rw [hgoing, if_neg Bool.false_ne_true]
  dsimp only
  have hle := hbefore.1
  rw [report_going before hgoing, List.take_append, List.take_of_length_le (by omega), hlength]

/-- Where the rows of a step do not fit, the orders keep different ones. -/
theorem fits_of_same (hmax : 0 < request.maxResults)
    (hsame : answerOf (insertionOrder search request) = answerOf (reversedValues search request))
    {before behind : List (Step String)} {e : Step String}
    (hsplit : searchTree search request = before ++ e :: behind)
    (hbefore : Unlimited search request before) :
    matchTotal search request (before ++ [e]) ≤ request.maxResults := by
  by_contra hover
  have htotal := @matchTotal_snoc K _ _ search request before e
  have hlt := hbefore.1
  have hfull : request.maxResults ≤ matchTotal search request (before ++ [e]) := by omega
  have hstopped := report_stopped (insertionOrder search request) hmax hsplit hbefore hfull
  have hreversed := report_stopped (reversedValues search request) hmax hsplit hbefore hfull
  rw [rowsOf_reversed] at hreversed
  have hnodup := rowsOf_nodup (insertionOrder search request) e
  have htarget : ∀ row ∈ rowsOf search request (insertionOrder search request) e,
      row.uniqueId = e.target := fun _ hrow => target_of_mem_rowsOf hrow
  cases hrows : rowsOf search request (insertionOrder search request) e with
  | nil =>
      rw [hrows, List.length_nil] at htotal
      omega
  | cons row rest =>
      rw [hrows] at hstopped hreversed hnodup htotal htarget
      rw [List.length_cons] at htotal
      -- the first row is kept in one order
      have hfirst : row ∈ (answerOf (insertionOrder search request)).lineage := by
        rw [mem_answerOf, hstopped]
        apply List.mem_append_right
        obtain ⟨room, hroom⟩ : ∃ room, request.maxResults - matchTotal search request before =
            room + 1 := ⟨_, (Nat.sub_one_add_one (by omega)).symm⟩
        rw [hroom, List.take_succ_cons]
        exact List.mem_cons_self
      rw [hsame, mem_answerOf, hreversed] at hfirst
      cases List.mem_append.mp hfirst with
      | inl hearlier =>
          -- the rows before are those of other entities
          obtain ⟨e', he', hfrom⟩ := List.mem_flatMap.mp hearlier
          have hnodups := (List.nodup_cons.mp (searchTree_spec search request).nodup).2
          rw [hsplit, List.map_append, List.map_cons, List.nodup_append] at hnodups
          apply hnodups.2.2 e'.target (List.mem_map_of_mem he') e.target List.mem_cons_self
          rw [← target_of_mem_rowsOf hfrom, htarget row List.mem_cons_self]
      | inr hlast =>
          rw [List.take_reverse, List.mem_reverse] at hlast
          obtain ⟨left, hleft⟩ : ∃ left, (row :: rest).length -
              (request.maxResults - matchTotal search request before) = left + 1 :=
            ⟨_, (Nat.sub_one_add_one (by rw [List.length_cons]; omega)).symm⟩
          rw [hleft, List.drop_succ_cons] at hlast
          exact (List.nodup_cons.mp hnodup).1 (List.mem_of_mem_drop hlast)

/-- With an alias in front, the explanation of a column that the aliases decide shows it. -/
theorem exists_row_of_alias (hmax : 0 < request.maxResults) {before behind : List (Step String)}
    {e : Step String} (hsplit : searchTree search request = before ++ e :: behind)
    (hbefore : Unlimited search request before)
    (hfits : matchTotal search request (before ++ [e]) ≤ request.maxResults)
    {current relatedEntity : Entity} (hcurrent : search.getEntity e.source = some current)
    (hrelated : search.getEntity e.target = some relatedEntity) {m : ColumnMatch K}
    (hm : m ∈ acceptedMatches search request (insertionOrder search request) e.source e.target)
    (hreason : m.matchReason = "sql_alias") {aliases : AliasMap}
    (haliases : aliasMap search.out
      (callInput search request e.source e.target current relatedEntity) = some aliases)
    {entry : String × String} (hentry : entry ∈ aliases.entries)
    {details : List (String × Detail K)}
    (hdetails : aliasDetails search.out
      (callInput search request e.source e.target current relatedEntity) m.columnName entry =
        some details) :
    ∃ row ∈ (answerOf (aliasFirst search request entry)).lineage,
      row.uniqueId = e.target ∧ row.column = m.columnName ∧
        row.explanation.details = details := by
  obtain ⟨hmatch, haccepts⟩ := (mem_acceptedMatches hcurrent hrelated).mp hm
  have hreasons := matchFor_reason search.out search.config
    (callInput search request e.source e.target current relatedEntity)
    ((insertionOrder search request).call e.source e.target)
    ((aliasFirst search request entry).call e.source e.target) m.columnName
  have hconfidence := matchFor_confidence search.out search.config
    (callInput search request e.source e.target current relatedEntity)
    ((insertionOrder search request).call e.source e.target)
    ((aliasFirst search request entry).call e.source e.target) m.columnName
  rw [hmatch, Option.map_some] at hreasons hconfidence
  obtain ⟨m', hmatch', hreason'⟩ := Option.map_eq_some_iff.mp hreasons.symm
  rw [hmatch', Option.map_some] at hconfidence
  have hname := matchFor_column hmatch'
  have hfirst : ((aliasFirst search request entry).call e.source e.target).aliases aliases =
      entry :: aliases.entries.erase entry := if_pos hentry
  have hshown := alias_first haliases hfirst hdetails hmatch' (hreason'.trans hreason)
  have hmem : m' ∈ acceptedMatches search request (aliasFirst search request entry) e.source
      e.target := by
    refine (mem_acceptedMatches hcurrent hrelated).mpr ⟨?_, ?_⟩
    · rw [hname, hmatch']
    · unfold accepts at haccepts ⊢
      rw [← Option.some.inj hconfidence]
      exact haccepts
  refine ⟨rowOf ⟨e.source, request.startColumn, e.depth - 1, []⟩ e.target relatedEntity m', ?_,
    rfl, hname, hshown⟩
  have hfront := @report_results K _ _ search request (aliasFirst search request entry) hmax
    (before ++ [e]) behind
  rw [List.append_assoc, List.singleton_append, ← hsplit] at hfront
  apply mem_answerOf.mpr
  apply hfront.subset
  rw [report_fitting _ hmax hbefore hfits, List.flatMap_append, List.flatMap_singleton]
  exact List.mem_append_right _ (mem_rowsOf.mpr ⟨relatedEntity, hrelated, m', hmem, rfl⟩)

theorem orderFree_of_same (hmax : 0 < request.maxResults)
    (hsame : ∀ order order' : HashOrder search request, answerOf order = answerOf order') :
    OrderFree search request := by
  have hfits := fun before e behind hsplit hbefore =>
    @fits_of_same K _ _ search request hmax (hsame _ _) before behind e hsplit hbefore
  refine ⟨hfits, ?_⟩
  intro before e behind hsplit hbefore current relatedEntity hcurrent hrelated m hm hreason
    aliases haliases entry hentry entry' hentry' details details' hdetails hdetails'
  have hroom := hfits before e behind hsplit hbefore
  obtain ⟨row, hrow, hid, hcolumn, hshown⟩ := exists_row_of_alias hmax hsplit hbefore hroom
    hcurrent hrelated hm hreason haliases hentry hdetails
  obtain ⟨row', hrow', hid', hcolumn', hshown'⟩ := exists_row_of_alias hmax hsplit hbefore hroom
    hcurrent hrelated hm hreason haliases hentry' hdetails'
  rw [hsame (aliasFirst search request entry') (aliasFirst search request entry)] at hrow'
  have hequal := report_unique _ (mem_answerOf.mp hrow) (mem_answerOf.mp hrow')
    (hid.trans hid'.symm) (hcolumn.trans hcolumn'.symm)
  rw [← hshown, ← hshown', hequal]

/-- All runs answer the same where the rows of each step fit and the aliases agree. -/
theorem column_rows_order_free_iff (search : ManifestSearch K) (params : GetColumnLineageParams)
    (request : Request) (hrequest : requestOf search params = .ok request) :
    (∀ (order order' : ∀ request, HashOrder search request) (fuel fuel' : ℕ)
      (answer answer' : LineageAnswer K),
      getColumnLineage fuel search params order = .ok (some answer) →
      getColumnLineage fuel' search params order' = .ok (some answer') → answer = answer') ↔
      OrderFree search request := by
  have hmax := (requestOf_ok hrequest).2.1
  constructor
  · intro h
    apply orderFree_of_same hmax
    intro order order'
    -- the orders of other requests do not matter
    have hrun : ∀ order : HashOrder search request, ∃ fuel,
        getColumnLineage fuel search params
          (Function.update (insertionOrder search) request order) =
            .ok (some (answerOf order)) := by
      intro order
      obtain ⟨fuel, hfuel⟩ := getColumnLineage_eq hrequest
        (Function.update (insertionOrder search) request order)
      rw [Function.update_self] at hfuel
      exact ⟨fuel, hfuel fuel (le_refl fuel)⟩
    obtain ⟨fuel, hfuel⟩ := hrun order
    obtain ⟨fuel', hfuel'⟩ := hrun order'
    exact h _ _ fuel fuel' _ _ hfuel hfuel'
  · intro h order order' fuel fuel' answer answer' hanswer hanswer'
    have heq : ∀ (order : ∀ request, HashOrder search request) (fuel : ℕ)
        (answer : LineageAnswer K), getColumnLineage fuel search params order =
          .ok (some answer) → answer = answerOf (insertionOrder search request) := by
      intro order fuel answer hanswer
      unfold getColumnLineage at hanswer
      rw [hrequest] at hanswer
      obtain ⟨fuel', hfuel'⟩ := columnLineage_eq (order request) hmax
      rw [columnLineage_unique (Except.ok.inj hanswer) (hfuel' fuel' (le_refl fuel'))]
      exact answerOf_free h hmax (order request)
    rw [heq order fuel answer hanswer, heq order' fuel' answer' hanswer']

end Tell

theorem column_rows_order_free_chain :
    ∃ request, requestOf (chain "id") idBelow = .ok request ∧
      ((∀ (order order' : ∀ request, HashOrder (chain "id") request) (fuel fuel' : ℕ)
        (answer answer' : LineageAnswer ℚ),
        getColumnLineage fuel (chain "id") idBelow order = .ok (some answer) →
        getColumnLineage fuel' (chain "id") idBelow order' = .ok (some answer') →
        answer = answer') ↔ OrderFree (chain "id") request) := by
  obtain ⟨request, hrequest⟩ := requestOf_chain
  exact ⟨request, hrequest, column_rows_order_free_iff (chain "id") idBelow request hrequest⟩

/-- Room for one row, and a model with two columns of the requested name. -/
def twoSpellings : ManifestSearch ℚ where
  out := asciiOut
  config := { defaultConfig with maxResults := 1 }
  parentMap := []
  childMap := [("model.a", ["model.b"])]
  entities := [("model.a", ⟨["id"], .null⟩), ("model.b", ⟨["ID", "id"], .null⟩)]
  columnLineageAliases := []

theorem twoSpellings_insertion :
    ((getColumnLineage 5 twoSpellings idBelow (insertionOrder _)).toOption.bind id).map
      (fun answer => answer.lineage.map LineageRow.column) = some ["ID"] := by decide +kernel

theorem twoSpellings_reversed :
    ((getColumnLineage 5 twoSpellings idBelow (reversedValues _)).toOption.bind id).map
      (fun answer => answer.lineage.map LineageRow.column) = some ["id"] := by decide +kernel

theorem kept_row_depends_on_order :
    ¬ ∀ (search : ManifestSearch ℚ) (params : GetColumnLineageParams)
      (order order' : ∀ request, HashOrder search request) (fuel fuel' : ℕ)
      (answer answer' : LineageAnswer ℚ),
      getColumnLineage fuel search params order = .ok (some answer) →
      getColumnLineage fuel' search params order' = .ok (some answer') → answer = answer' := by
  intro h
  obtain ⟨answer, hanswer, hrows⟩ := exists_answer twoSpellings_insertion
  obtain ⟨answer', hanswer', hrows'⟩ := exists_answer twoSpellings_reversed
  have hsame := h _ _ _ _ 5 5 answer answer' hanswer hanswer'
  rw [hsame, hrows'] at hrows
  exact absurd hrows (by decide)

end DbtNova.ColumnLineage
