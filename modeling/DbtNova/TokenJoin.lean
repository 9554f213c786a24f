import Mathlib.Data.List.Infix
import Mathlib.Tactic.Common

/-!
# Joined tokens

Tokens that do not hold the separator are joined by it. An occurrence of joined tokens in other
joined tokens need not begin and end at tokens; where it does, the tokens are a contiguous part of
the others. The first occurrence does exactly where no window of as many tokens has the joined
text in it before the tokens themselves have stood there.
-/
namespace DbtNova.TokenJoin

variable {α : Type*} {s : α} {ts pre needle w post hay : List (List α)} {front back u v : List α}

/-- No token holds the separator. -/
def Tokens (s : α) (ts : List (List α)) : Prop := ∀ t ∈ ts, s ∉ t

def join (s : α) (ts : List (List α)) : List α := [s].intercalate ts

/-- Tokens with the separator behind each. -/
def lead (s : α) (ts : List (List α)) : List α := ts.flatMap (· ++ [s])

/-- Tokens with the separator before each. -/
def trail (s : α) (ts : List (List α)) : List α := ts.flatMap (s :: ·)

theorem Tokens.append (hpre : Tokens s pre) (hpost : Tokens s post) : Tokens s (pre ++ post) :=
  fun t ht => (List.mem_append.mp ht).elim (hpre t) (hpost t)

theorem Tokens.of_subset (hts : Tokens s ts) (hsub : pre ⊆ ts) : Tokens s pre :=
  fun t ht => hts t (hsub ht)

@[simp] theorem join_singleton (t : List α) : join s [t] = t := List.intercalate_singleton

theorem join_cons (t : List α) (hts : ts ≠ []) : join s (t :: ts) = t ++ s :: join s ts := by
  unfold join
  rw [List.intercalate_cons_of_ne_nil hts, List.append_assoc, List.singleton_append]

@[simp] theorem lead_nil : lead s [] = [] := rfl

@[simp] theorem lead_cons (t : List α) (ts : List (List α)) :
    lead s (t :: ts) = t ++ s :: lead s ts := by
  simp [lead]

@[simp] theorem lead_append (pre post : List (List α)) :
    lead s (pre ++ post) = lead s pre ++ lead s post := by
  simp [lead]

@[simp] theorem trail_nil : trail s [] = [] := rfl

@[simp] theorem trail_cons (t : List α) (ts : List (List α)) :
    trail s (t :: ts) = s :: t ++ trail s ts := rfl

theorem join_cons_eq_trail (t : List α) (ts : List (List α)) :
    join s (t :: ts) = t ++ trail s ts := by
  induction ts generalizing t with
  | nil => simp
  | cons b ts ih => rw [join_cons t (List.cons_ne_nil b ts), ih, trail_cons, List.cons_append]

theorem join_append_trail (hneedle : needle ≠ []) (post : List (List α)) :
    join s (needle ++ post) = join s needle ++ trail s post := by
  cases needle with
  | nil => exact absurd rfl hneedle
  | cons t needle =>
      rw [List.cons_append, join_cons_eq_trail, join_cons_eq_trail, trail, trail,
        List.flatMap_append, List.append_assoc]
      rfl

theorem join_lead_append (hneedle : needle ≠ []) (pre : List (List α)) :
    join s (pre ++ needle) = lead s pre ++ join s needle := by
  induction pre with
  | nil => rfl
  | cons t pre ih =>
      rw [List.cons_append, join_cons t (List.append_ne_nil_of_right_ne_nil pre hneedle), ih,
        lead_cons, List.append_assoc, List.cons_append]

theorem join_append (hneedle : needle ≠ []) (pre post : List (List α)) :
    join s (pre ++ needle ++ post) = lead s pre ++ join s needle ++ trail s post := by
  rw [join_append_trail (List.append_ne_nil_of_right_ne_nil pre hneedle), join_lead_append hneedle]

section Split
variable [DecidableEq α]

theorem exists_tokens (s : α) (u : List α) : ∃ ts, ts ≠ [] ∧ Tokens s ts ∧ join s ts = u := by
  induction u with
  | nil => exact ⟨[[]], List.cons_ne_nil _ _, by simp [Tokens], join_singleton []⟩
  | cons c u ih =>
      obtain ⟨ts, hne, hts, rfl⟩ := ih
      by_cases hc : c = s
      · subst hc
        refine ⟨[] :: ts, List.cons_ne_nil _ _, ?_, join_cons [] hne⟩
        exact List.forall_mem_cons.mpr ⟨List.not_mem_nil, hts⟩
      · cases ts with
        | nil => exact absurd rfl hne
        | cons t ts =>
            refine ⟨(c :: t) :: ts, List.cons_ne_nil _ _, ?_, ?_⟩
            · obtain ⟨ht, hrest⟩ := List.forall_mem_cons.mp hts
              exact List.forall_mem_cons.mpr
                ⟨fun hs => (List.mem_cons.mp hs).elim (Ne.symm hc) ht, hrest⟩
            · rw [join_cons_eq_trail, join_cons_eq_trail, List.cons_append]

theorem join_injective (hts : Tokens s ts) (hne : ts ≠ []) (hw : Tokens s w) (hwne : w ≠ [])
    (heq : join s ts = join s w) : ts = w := by
  have hsplit := congrArg (List.splitOn s) heq
  rwa [join, join, List.splitOn_intercalate s hts hne, List.splitOn_intercalate s hw hwne] at hsplit

theorem count_lead (hpre : Tokens s pre) : (lead s pre).count s = pre.length := by
  induction pre with
  | nil => rfl
  | cons t pre ih =>
      have ht := List.count_eq_zero.mpr (hpre t List.mem_cons_self)
      have hrest := ih (hpre.of_subset (List.subset_cons_self t pre))
      rw [lead_cons, List.count_append, ht, List.count_cons_self, hrest, List.length_cons]
      omega

theorem count_join (hneedle : Tokens s needle) (hne : needle ≠ []) :
    (join s needle).count s + 1 = needle.length := by
  obtain ⟨pre, t, rfl⟩ : ∃ pre t, needle = pre ++ [t] :=
    ⟨needle.dropLast, needle.getLast hne, (List.dropLast_append_getLast hne).symm⟩
  have ht := List.count_eq_zero.mpr (hneedle t (List.mem_append_right pre List.mem_cons_self))
  have hlead := count_lead (hneedle.of_subset (List.subset_append_left pre [t]))
  rw [join_lead_append (List.cons_ne_nil t []), List.count_append, hlead, join_singleton, ht,
    List.length_append, List.length_singleton]

end Split

/-! ### Occurrences at tokens -/

/-- An occurrence between these two texts begins and ends at tokens. -/
def Aligned (s : α) (front back : List α) : Prop :=
  (front = [] ∨ front.getLast? = some s) ∧ (back = [] ∨ back.head? = some s)

theorem getLast?_lead (pre : List (List α)) : lead s pre = [] ∨ (lead s pre).getLast? = some s := by
  rcases List.eq_nil_or_concat pre with rfl | ⟨pre, t, rfl⟩
  · exact Or.inl rfl
  · right
    simp

theorem head?_trail (post : List (List α)) : trail s post = [] ∨ (trail s post).head? = some s := by
  cases post with
  | nil => exact Or.inl rfl
  | cons t post => exact Or.inr rfl

section Occurrences
variable [DecidableEq α]

theorem exists_lead (hfront : front = [] ∨ front.getLast? = some s) :
    ∃ pre, Tokens s pre ∧ front = lead s pre := by
  rcases hfront with rfl | hlast
  · exact ⟨[], fun t ht => absurd ht List.not_mem_nil, rfl⟩
  · obtain ⟨u, rfl⟩ := List.getLast?_eq_some_iff.mp hlast
    obtain ⟨ts, hne, hts, rfl⟩ := exists_tokens s u
    refine ⟨ts, hts, ?_⟩
    obtain ⟨pre, t, rfl⟩ : ∃ pre t, ts = pre ++ [t] :=
      ⟨ts.dropLast, ts.getLast hne, (List.dropLast_append_getLast hne).symm⟩
    rw [join_lead_append (List.cons_ne_nil t []), lead_append, join_singleton, lead_cons, lead_nil,
      List.append_assoc]

theorem exists_trail (hback : back = [] ∨ back.head? = some s) :
    ∃ post, Tokens s post ∧ back = trail s post := by
  rcases hback with rfl | hhead
  · exact ⟨[], fun t ht => absurd ht List.not_mem_nil, rfl⟩
  · obtain ⟨v, rfl⟩ := List.head?_eq_some_iff.mp hhead
    obtain ⟨ts, hne, hts, rfl⟩ := exists_tokens s v
    cases ts with
    | nil => exact absurd rfl hne
    | cons t ts => exact ⟨t :: ts, hts, by rw [join_cons_eq_trail, trail_cons, List.cons_append]⟩

/-- Occurrences at tokens are contiguous parts. -/
theorem aligned_iff (hhay : Tokens s hay) (hhayne : hay ≠ []) (hneedle : Tokens s needle)
    (hne : needle ≠ []) :
    (join s hay = front ++ join s needle ++ back ∧ Aligned s front back) ↔
      ∃ pre post, hay = pre ++ needle ++ post ∧ front = lead s pre ∧ back = trail s post := by
  constructor
  · rintro ⟨heq, hfront, hback⟩
    obtain ⟨pre, hpre, rfl⟩ := exists_lead hfront
    obtain ⟨post, hpost, rfl⟩ := exists_trail hback
    rw [← join_append hne] at heq
    have hparts : pre ++ needle ++ post ≠ [] :=
      List.append_ne_nil_of_left_ne_nil (List.append_ne_nil_of_right_ne_nil pre hne) post
    have hsame := join_injective hhay hhayne ((hpre.append hneedle).append hpost) hparts heq
    exact ⟨pre, post, hsame, rfl, rfl⟩
  · rintro ⟨pre, post, rfl, rfl, rfl⟩
    exact ⟨join_append hne pre post, getLast?_lead pre, head?_trail post⟩

/-- A text with tokens in it, next to texts without the separator, is one of as many tokens. -/
theorem exists_window (hneedle : Tokens s needle) (hne : needle ≠ []) (hu : s ∉ u) (hv : s ∉ v) :
    ∃ w, w ≠ [] ∧ Tokens s w ∧ w.length = needle.length ∧ join s w = u ++ join s needle ++ v := by
  obtain ⟨w, hwne, hw, hjoin⟩ := exists_tokens s (u ++ join s needle ++ v)
  refine ⟨w, hwne, hw, ?_, hjoin⟩
  have hcount := count_join hw hwne
  have hcountn := count_join hneedle hne
  rw [hjoin, List.count_append, List.count_append, List.count_eq_zero.mpr hu,
    List.count_eq_zero.mpr hv] at hcount
  omega

/-- An occurrence lies in a window of as many tokens. -/
theorem exists_window_of_occurrence (hhay : Tokens s hay) (hhayne : hay ≠ [])
    (hneedle : Tokens s needle) (hne : needle ≠ []) (heq : join s hay = front ++ join s needle ++ back) :
    ∃ pre w post u v, hay = pre ++ w ++ post ∧ w.length = needle.length ∧ front = lead s pre ++ u ∧
      join s w = u ++ join s needle ++ v := by
  obtain ⟨fs, hfne, hfs, hfront⟩ := exists_tokens s front
  obtain ⟨bs, hbne, hbs, hback⟩ := exists_tokens s back
  obtain ⟨pre, u, rfl⟩ : ∃ pre u, fs = pre ++ [u] :=
    ⟨fs.dropLast, fs.getLast hfne, (List.dropLast_append_getLast hfne).symm⟩
  cases bs with
  | nil => exact absurd rfl hbne
  | cons v post =>
      have hu := hfs u (List.mem_append_right pre List.mem_cons_self)
      have hv := hbs v List.mem_cons_self
      obtain ⟨w, hwne, hw, hlen, hjoin⟩ := exists_window hneedle hne hu hv
      rw [join_lead_append (List.cons_ne_nil u []), join_singleton] at hfront
      rw [join_cons_eq_trail] at hback
      refine ⟨pre, w, post, u, v, ?_, hlen, hfront.symm, hjoin⟩
      have hpre := hfs.of_subset (List.subset_append_left pre [u])
      have hpost := hbs.of_subset (List.subset_cons_self v post)
      refine join_injective hhay hhayne ((hpre.append hw).append hpost)
        (List.append_ne_nil_of_left_ne_nil (List.append_ne_nil_of_right_ne_nil pre hwne) post) ?_
      rw [heq, join_append hwne, hjoin, ← hfront, ← hback]
      simp only [List.append_assoc]

/-- The first occurrence stands at tokens exactly where every window that has the text in it ends
at or behind the tokens. -/
theorem first_aligned_iff (hhay : Tokens s hay) (hhayne : hay ≠ []) (hneedle : Tokens s needle)
    (hne : needle ≠ []) (heq : join s hay = front ++ join s needle ++ back)
    (hfirst : ∀ front' back', join s hay = front' ++ join s needle ++ back' →
      front.length ≤ front'.length) :
    Aligned s front back ↔
      ∀ pre w post, hay = pre ++ w ++ post → w.length = needle.length →
        join s needle <:+: join s w → needle <:+: pre ++ w := by
  constructor
  · rintro haligned pre w post hsplit hlen ⟨u, v, hwindow⟩
    obtain ⟨pre', post', hparts, rfl, rfl⟩ :=
      (aligned_iff hhay hhayne hneedle hne).mp ⟨heq, haligned⟩
    have hwne : w ≠ [] := by
      rintro rfl
      exact hne (List.length_eq_zero_iff.mp hlen.symm)
    have hwhole : join s hay = lead s pre ++ u ++ join s needle ++ (v ++ trail s post) := by
      rw [hsplit, join_append hwne, ← hwindow]
      simp only [List.append_assoc]
    -- the first occurrence has no more separators before it than this one
    have hfronts : lead s pre' <+: lead s pre ++ u := by
      have hleft : lead s pre' <+: join s hay :=
        ⟨join s needle ++ trail s post', by rw [heq, List.append_assoc]⟩
      have hright : lead s pre ++ u <+: join s hay := by
        refine ⟨join s needle ++ (v ++ trail s post), ?_⟩
        rw [hwhole, List.append_assoc _ (join s needle)]
      exact List.prefix_of_prefix_length_le hleft hright (hfirst _ _ hwhole)
    have hpre : Tokens s pre := hhay.of_subset (by
      rw [hsplit, List.append_assoc]
      exact List.subset_append_left _ _)
    have hpre' : Tokens s pre' := hhay.of_subset (by
      rw [hparts, List.append_assoc]
      exact List.subset_append_left _ _)
    have hw : Tokens s w := hhay.of_subset (by
      rw [hsplit]
      exact fun t ht => List.mem_append_left post (List.mem_append_right pre ht))
    have hu : u.count s = 0 := by
      have hcount := count_join hw hwne
      have hcountn := count_join hneedle hne
      rw [← hwindow, List.count_append, List.count_append] at hcount
      omega
    have hle := hfronts.sublist.count_le s
    rw [List.count_append, count_lead hpre, count_lead hpre', hu] at hle
    have hends : pre' ++ needle <+: pre ++ w := by
      have hleft : pre' ++ needle <+: hay := ⟨post', hparts.symm⟩
      refine List.prefix_of_prefix_length_le hleft ⟨post, hsplit.symm⟩ ?_
      rw [List.length_append, List.length_append]
      omega
    obtain ⟨rest, hrest⟩ := hends
    exact ⟨pre', rest, hrest⟩
  · intro hwindows
    obtain ⟨pre, w, post, u, v, hsplit, hlen, hfront, hjoin⟩ :=
      exists_window_of_occurrence hhay hhayne hneedle hne heq
    obtain ⟨p, q, hpq⟩ := hwindows pre w post hsplit hlen ⟨u, v, hjoin.symm⟩
    have hparts : hay = p ++ needle ++ (q ++ post) := by
      rw [hsplit, ← hpq]
      simp only [List.append_assoc]
    have hwhole : join s hay = lead s p ++ join s needle ++ trail s (q ++ post) := by
      rw [hparts, join_append hne]
    -- the tokens begin no later than the window, so their occurrence is the first
    have hple : p <+: pre := by
      have hleft : p <+: pre ++ w := ⟨needle ++ q, by rw [← hpq, List.append_assoc]⟩
      refine List.prefix_of_prefix_length_le hleft (List.prefix_append pre w) ?_
      have hlengths := congrArg List.length hpq
      simp only [List.length_append] at hlengths
      omega
    obtain ⟨rest, rfl⟩ := hple
    have hle := hfirst _ _ hwhole
    have hsame : front = lead s p := by
      have hfronts : lead s p <+: front := by
        rw [hfront, lead_append, List.append_assoc]
        exact List.prefix_append _ _
      exact (hfronts.eq_of_length_le hle).symm
    rw [hsame, List.append_assoc] at heq
    rw [List.append_assoc] at hwhole
    have hback := List.append_cancel_left (List.append_cancel_left (heq.symm.trans hwhole))
    rw [hsame, hback]
    exact ⟨getLast?_lead p, head?_trail (q ++ post)⟩

end Occurrences

end DbtNova.TokenJoin
