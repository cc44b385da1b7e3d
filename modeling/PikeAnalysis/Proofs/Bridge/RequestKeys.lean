import PikeAnalysis.Bridge.Request
import PikeAnalysis.Proofs.Json.Nesting

/-!
# Keys of requests

Requests of one key share an answer, so the key has to tell requests apart.  The method goes into
the key as it is, colons and braces included; it can still be told from the parameters, as no text
of an object ends with another one.

The premise of `requestKey_eq_iff` is that parameters are plain: no object names a field twice, and
numbers are whole.  Nothing is asked of methods, which may contain anything.
-/

namespace PikeAnalysis.Bridge

open Json

/-- A text that starts anyhow and ends with a colon and an object says which object it is. -/
theorem append_colon_write_obj_inj {m n : List Char} {fs gs : List (String × Json)}
    (hf : Plain (.obj fs)) (hg : Plain (.obj gs)) :
    m ++ ':' :: write .compact (.obj fs) = n ++ ':' :: write .compact (.obj gs) ↔
      m = n ∧ write .compact (.obj fs) = write .compact (.obj gs) := by
  constructor
  · intro h
    -- the longer start would have the colon and an object of its own before the shorter one's end
    have shorter {s t : List Char} {ds es : List (String × Json)} (hd : Plain (.obj ds))
        (he : Plain (.obj es)) {x : List Char} (ht : t = s ++ x)
        (hx : ':' :: write .compact (.obj ds) = x ++ ':' :: write .compact (.obj es)) :
        s = t ∧ write .compact (.obj ds) = write .compact (.obj es) := by
      cases x with
      | nil => exact ⟨by rw [ht, List.append_nil], (List.cons.inj hx).2⟩
      | cons c x =>
        have hds : write .compact (.obj ds) = (x ++ [':']) ++ write .compact (.obj es) := by
          rw [List.append_assoc]
          exact (List.cons.inj hx).2
        have hnil := hd.eq_nil_of_write_obj_eq_append he hds
        simp at hnil
    rcases List.append_eq_append_iff.mp h with ⟨x, hn, hx⟩ | ⟨x, hm, hx⟩
    · exact shorter hf hg hn hx
    · obtain ⟨hnm, hgf⟩ := shorter hg hf hm hx
      exact ⟨hnm.symm, hgf.symm⟩
  · rintro ⟨rfl, h⟩
    rw [h]

theorem toList_requestKey (m : String) (ps : List (String × Json)) :
    (requestKey m ps).toList = m.toList ++ ':' :: write .compact (Json.obj ps).sortKeys := by
  rw [requestKey, compact, String.toList_append, String.toList_append, List.append_assoc]
  exact congrArg (m.toList ++ ':' :: ·) String.toList_ofList

/-- A key says which request it is of, up to the order of fields. -/
theorem alike_of_requestKey_eq {m n : String} {ps qs : List (String × Json)} (hp : Plain (.obj ps))
    (hq : Plain (.obj qs)) (h : requestKey m ps = requestKey n qs) :
    m = n ∧ Alike (.obj ps) (.obj qs) := by
  have hp' := hp.sortKeys
  have hq' := hq.sortKeys
  rw [← String.toList_inj, toList_requestKey, toList_requestKey] at h
  have texts : m.toList = n.toList ∧
      write .compact (Json.obj ps).sortKeys = write .compact (Json.obj qs).sortKeys := by
    rw [sortKeys_obj] at hp' hq' h ⊢
    rw [sortKeys_obj] at h ⊢
    exact (append_colon_write_obj_inj hp' hq').1 h
  have sorted := hp'.eq_of_compact_eq hq' (congrArg String.ofList texts.2)
  exact ⟨String.toList_inj.1 texts.1, (hp.sortKeys_eq_iff hq).1 sorted⟩

/-- Requests have the same key exactly if they have the same method and the same parameters up to
the order of fields.  Up to the order of fields at every depth, and with lists in their order.  So
two callers are given one request exactly if they ask for the same thing.  The method may be any
text, even one with a colon in it: the object behind the colon that ends it is recognized from
the end. -/
theorem requestKey_eq_iff (m n : String) {ps qs : List (String × Json)} (hp : Plain (.obj ps))
    (hq : Plain (.obj qs)) :
    requestKey m ps = requestKey n qs ↔ m = n ∧ Alike (.obj ps) (.obj qs) := by
  have hp' := hp.sortKeys
  have hq' := hq.sortKeys
  have texts : write .compact (Json.obj ps).sortKeys = write .compact (Json.obj qs).sortKeys ↔
      (Json.obj ps).sortKeys = (Json.obj qs).sortKeys :=
    ⟨fun h => hp'.eq_of_compact_eq hq' (congrArg String.ofList h), fun h => by rw [h]⟩
  have split : m.toList ++ ':' :: write .compact (Json.obj ps).sortKeys =
      n.toList ++ ':' :: write .compact (Json.obj qs).sortKeys ↔
      m.toList = n.toList ∧
        write .compact (Json.obj ps).sortKeys = write .compact (Json.obj qs).sortKeys := by
    rw [sortKeys_obj] at hp' hq' ⊢
    rw [sortKeys_obj]
    exact append_colon_write_obj_inj hp' hq'
  rw [← String.toList_inj, toList_requestKey, toList_requestKey, split, String.toList_inj, texts,
    hp.sortKeys_eq_iff hq]

theorem reordered_request_keeps_key :
    requestKey "parse" [("code", .str "int x;"), ("line", .int 1)] =
        requestKey "parse" [("line", .int 1), ("code", .str "int x;")] ∧
      requestKey "parse" [("code", .str "int x;"), ("line", .int 1)] ≠
        requestKey "parse:\x7b\x7d" [("line", .int 1), ("code", .str "int x;")] := by
  have hp : Plain (.obj [("code", .str "int x;"), ("line", .int 1)]) := by
    refine .obj (by decide) fun f hf => ?_
    simp only [List.mem_cons, List.not_mem_nil, or_false] at hf
    rcases hf with rfl | rfl
    · exact .str _
    · exact .int _
  have hq : Plain (.obj [("line", .int 1), ("code", .str "int x;")]) := by
    refine .obj (by decide) fun f hf => ?_
    simp only [List.mem_cons, List.not_mem_nil, or_false] at hf
    rcases hf with rfl | rfl
    · exact .int _
    · exact .str _
  constructor
  · exact (requestKey_eq_iff _ _ hp hq).mpr ⟨rfl, hp.alike_of_perm (.swap _ _ [])⟩
  · intro h
    exact absurd ((requestKey_eq_iff _ _ hp hq).mp h).1 (by decide)

end PikeAnalysis.Bridge
