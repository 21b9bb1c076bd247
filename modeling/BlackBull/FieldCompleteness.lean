import BlackBull.BareItemCompleteness
import BlackBull.FieldSoundness

/-!
# The parser takes the language

Parameters, items, inner lists, lists and dictionaries: each text of the language is taken whole
and gives the value it stands for. A loop is given as much fuel as there is text, and a turn of
it takes at least one character.
-/

namespace BlackBull.StructuredFields

open ByteString

variable {α δ : Type} (co : Codec δ)

variable {text rest spaces : Bytes} {ps : List (Bytes × BareItem δ)} {k : ℕ}
  {mb : Member δ} (c : UInt8)

theorem follows_spaces {ch : UInt8 → Bool} (hs : IsSpaces spaces)
    (hsp : ch space=true) (hr : Follows ch rest) : Follows ch (spaces++rest) :=
  .append (fun c hc => by rwa [hs c hc]) hr

theorem endsBareItem_of_endsItem : endsItem c=true → endsBareItem c=true := by
  revert c
  decide +kernel

theorem endsKey_of_endsBareItem : endsBareItem c=true → endsKey c=true := by
  revert c
  decide +kernel

theorem ParametersText.follows {co : Codec δ} (h : ParametersText co text ps)
    (hr : Follows endsItem rest) : Follows endsBareItem (text++rest) := by
  cases h with
  | nil => exact hr.mono endsBareItem_of_endsItem
  | flag hs hk ht | valued hs hk hv ht => exact follows_cons (by decide) _

theorem keyStart_facts : isKeyStart c=true → c≠space ∧ isOws c=false := by
  revert c
  decide +kernel

theorem IsKey.follows {key : Bytes} (hk : IsKey key) (rest : Bytes) :
    Follows (fun c => !decide (c=space)) (key++rest) := by
  obtain ⟨c,tail,rfl,hc⟩ := IsWord.exists_cons hk
  exact follows_cons (by simpa using (keyStart_facts c hc).1) _

theorem takes_discardSp {rs : Bytes} {a : α} {f : PUnit → ParserM α} (hs : IsSpaces spaces)
    (hr : Follows (fun c => !decide (c=space)) rest) (h : Takes (f ⟨⟩) rest a rs) :
    Takes (discardSp >>= f) (spaces++rest) a rs :=
  takes_skip (fun c hc => by simpa using hs c hc) hr h

theorem takes_parametersLoop (h : ParametersText co text ps) (hf : text.length≤k)
    (p : Parameters δ) (hr : Follows endsItem rest) :
    Takes (parametersLoop co k p) (text++rest) (p.setAll ps) rest := by
  induction h generalizing k p with
  | nil =>
    cases k with
    | zero => exact Takes.pure
    | succ k =>
      refine takes_peek (Takes.ite_neg (fun hh => ?_) Takes.pure)
      exact absurd (hr semicolon hh) (by decide)
  | @flag spaces key text ps hs hk ht ih =>
    rw [List.length_cons,List.length_append,List.length_append] at hf
    obtain ⟨k,rfl⟩ : ∃ n,k = n + 1 := ⟨k - 1,by omega⟩
    have he := ht.follows hr
    rw [List.cons_append,List.append_assoc,List.append_assoc]
    refine takes_peek (Takes.ite_pos rfl (takes_advance (takes_discardSp hs
      (hk.follows _) (Takes.bind (takes_parseKey hk (he.mono endsKey_of_endsBareItem))
        (takes_peek (Takes.ite_neg (fun hh => ?_) ?_))))))
    · exact absurd (he equals hh) (by decide)
    · exact ih (by omega) (p.set key (.boolean true))
  | @valued spaces key v text b ps hs hk hv ht ih =>
    simp only [List.length_cons,List.length_append] at hf
    obtain ⟨k,rfl⟩ : ∃ n,k = n + 1 := ⟨k - 1,by omega⟩
    have he := ht.follows hr
    rw [List.cons_append,List.append_assoc,List.append_assoc,List.cons_append,List.append_assoc]
    exact takes_peek (Takes.ite_pos rfl (takes_advance (takes_discardSp hs
      (hk.follows _) (Takes.bind (takes_parseKey hk (follows_cons (by decide) _))
        (takes_peek (Takes.ite_pos rfl (takes_advance (Takes.bind (takes_parseBareItem co hv he)
          (ih (by omega) (p.set key b))))))))))

theorem takes_parseParameters (h : ParametersText co text ps) (hr : Follows endsItem rest) :
    Takes (parseParameters co) (text++rest) (.ofPairs ps) rest :=
  Takes.get (takes_parametersLoop co h (by simp) .empty hr)

theorem takes_parseItemBody {i : Item δ} (h : ItemText co text i)
    (hr : Follows endsItem rest) : Takes (parseItemBody co) (text++rest) i rest := by
  obtain ⟨hv,ht⟩ := h
  rw [List.append_assoc]
  exact Takes.bind (takes_parseBareItem co hv (ht.follows hr))
    (Takes.bind (takes_parseParameters co ht hr) Takes.pure)

theorem ItemText.exists_cons {co : Codec δ} {i : Item δ} (h : ItemText co text i) :
    ∃ c tail,text=c::tail ∧ startsBareItem c=true := by
  obtain ⟨hv,ht⟩ := h
  obtain ⟨c,tail,rfl,hc⟩ := hv.exists_cons
  exact ⟨c,_,rfl,hc⟩

theorem startsBareItem_facts : startsBareItem c=true →
    isOws c=false ∧ c≠space ∧ c≠rightParen ∧ c≠leftParen := by
  revert c
  decide +kernel

theorem follows_of_head (h : rest.head? = some space ∨ rest.head? = some rightParen)
    (rs : Bytes) : Follows endsItem (rest++rs) := by
  rcases h with h | h
  · obtain ⟨tail,rfl⟩ := List.head?_eq_some_iff.mp h
    exact follows_cons (by decide) _
  · obtain ⟨tail,rfl⟩ := List.head?_eq_some_iff.mp h
    exact follows_cons (by decide) _

theorem takes_innerListLoop {b tail : Bytes} {xs : List (Item δ)}
    (h : InnerText co b xs) (ht : ParametersText co tail ps)
    (hr : Follows endsItem rest) (hf : b.length≤k) (i : List (Item δ)) :
    Takes (innerListLoop co k i) (b++(tail++rest))
      (i++xs,.ofPairs ps) rest := by
  induction h generalizing k i with
  | @close spaces hs =>
    rw [List.length_append,List.length_singleton] at hf
    obtain ⟨k,rfl⟩ : ∃ n,k = n + 1 := ⟨k - 1,by omega⟩
    rw [List.append_assoc,List.singleton_append,List.append_nil]
    exact takes_eof (Takes.ite_neg (by simp) (takes_discardSp hs
      (follows_cons (by decide) _) (takes_peek (Takes.ite_pos rfl (takes_advance
        (Takes.bind (takes_parseParameters co ht hr) Takes.pure))))))
  | @item spaces text b it xs hs hi hn hb ih =>
    have hi' := takes_parseItemBody co hi (follows_of_head hn (tail++rest))
    obtain ⟨c,text,rfl,hc⟩ := hi.exists_cons
    obtain ⟨-,hsp,hcl,-⟩ := startsBareItem_facts c hc
    simp only [List.length_append,List.length_cons] at hf
    obtain ⟨k,rfl⟩ : ∃ n,k = n + 1 := ⟨k - 1,by omega⟩
    have hb' : b.length≤k := by omega
    have hl := ih hb' (i++[it])
    rw [List.append_assoc,List.singleton_append] at hl
    rw [List.append_assoc,List.append_assoc]
    refine takes_eof (Takes.ite_neg (by simp) (takes_discardSp hs
      (follows_cons (by simpa using hsp) _) (takes_peek (Takes.ite_neg (by simpa using hcl)
        (Takes.bind hi' (takes_peek (Takes.ite_pos ?_ hl)))))))
    obtain ⟨d,b,rfl⟩ := List.exists_cons_of_ne_nil hb.ne_nil
    exact hn

theorem MemberText.exists_cons {co : Codec δ} (h : MemberText co text mb) :
    ∃ c tail,text=c::tail ∧ isOws c=false := by
  cases h with
  | item ht =>
    obtain ⟨c,tail,rfl,hc⟩ := ht.exists_cons
    exact ⟨c,tail,rfl,(startsBareItem_facts c hc).1⟩
  | innerList hi ht => exact ⟨leftParen,_,rfl,by decide⟩

theorem takes_parseItemOrInnerList (h : MemberText co text mb) (hr : Follows endsItem rest) :
    Takes (parseItemOrInnerList co) (text++rest) mb rest := by
  cases h with
  | item ht =>
    have hi := takes_parseItemBody co ht hr
    obtain ⟨c,tail,rfl,hc⟩ := ht.exists_cons
    exact takes_peek (Takes.ite_neg (by simpa using (startsBareItem_facts c hc).2.2.2)
      (Takes.map hi))
  | @innerList body tail xs ps hin ht =>
    rw [List.cons_append,List.append_assoc]
    exact takes_peek (Takes.ite_pos rfl (Takes.map (takes_expect (Takes.get
      (takes_innerListLoop co hin ht hr (by simp) [])))))

theorem EntryText.exists_cons {co : Codec δ} {e : Bytes × Member δ}
    (h : EntryText co text e) : ∃ c tail,text=c::tail ∧ isOws c=false := by
  cases h with
  | flag hk ht =>
    obtain ⟨c,tail,rfl,hc⟩ := IsWord.exists_cons hk
    exact ⟨c,_,rfl,(keyStart_facts c hc).2⟩
  | valued hk hm =>
    obtain ⟨c,tail,rfl,hc⟩ := IsWord.exists_cons hk
    exact ⟨c,_,rfl,(keyStart_facts c hc).2⟩

theorem takes_entry {key : Bytes} (h : EntryText co text (key,mb)) (hr : Follows endsItem rest) :
    ∃ rs,Takes parseKey (text++rest) key rs ∧
      Takes (parseValue co) rs mb rest := by
  cases h with
  | @flag key tail ps hk ht =>
    have he := ht.follows hr
    rw [List.append_assoc]
    refine ⟨tail++rest,takes_parseKey hk (he.mono endsKey_of_endsBareItem),?_⟩
    refine takes_peek (Takes.ite_neg (fun hh => ?_)
      (Takes.bind (takes_parseParameters co ht hr) Takes.pure))
    exact absurd (he equals hh) (by decide)
  | @valued key tail mb hk hm =>
    rw [List.append_assoc,List.cons_append]
    exact ⟨equals::(tail++rest),takes_parseKey hk (follows_cons (by decide) _),
      takes_peek (Takes.ite_pos rfl (takes_advance (takes_parseItemOrInnerList co hm hr)))⟩

section Separators

variable {el : Bytes → α → Prop} {sf r : α} {e : Fault} {ag : ParserM α}

theorem Separated.exists_cons (he : ∀ text a,el text a → ∃ c tail,text=c::tail ∧ isOws c=false)
    {text : Bytes} {as : List α} (h : Separated el text as) :
    ∃ c tail,text=c::tail ∧ isOws c=false := by
  cases h with
  | last ht ho =>
    obtain ⟨c,tail,rfl,hc⟩ := he _ _ ht
    exact ⟨c,_,rfl,hc⟩
  | next ht hb ha hr =>
    obtain ⟨c,tail,rfl,hc⟩ := he _ _ ht
    exact ⟨c,_,rfl,hc⟩

theorem IsOws.follows {ows rest : Bytes} (ho : IsOws ows) (hr : Follows endsItem rest) :
    Follows endsItem (ows++rest) := by
  refine .append (fun c hc => ?_) hr
  have how := ho c hc
  simp only [isOws,endsItem,Bool.or_eq_true] at how ⊢
  tauto

theorem takes_separator_last {ows : Bytes} (ho : IsOws ows) :
    Takes (separator r e ag) ows r [] := by
  rw [← List.append_nil ows]
  exact takes_skip ho (follows_nil _) (takes_eof (Takes.ite_pos rfl Takes.pure))

theorem takes_separator_next {b a tail rest : Bytes} {c : UInt8}
    (hb : IsOws b) (ha : IsOws a) (hc : isOws c=false) (h : Takes ag (c::tail) r rest) :
    Takes (separator sf e ag) (b++comma::(a++c::tail)) r rest :=
  takes_skip hb (follows_cons (by decide) _) (takes_eof (Takes.ite_neg (by simp)
    (takes_expect (takes_skip ha (follows_cons (by simpa using hc) _)
      (takes_eof (Takes.ite_neg (by simp) h))))))

/-- A loop whose turns take an element and what follows it. -/
theorem takes_loop {β : Type} (l : ℕ → β → ParserM β) (add : β → α → β) (e : Fault)
    (he : ∀ text a,el text a → ∃ c tail,text=c::tail ∧ isOws c=false)
    (hl : ∀ {text rest a n sf r left},el text a → Follows endsItem rest →
      Takes (separator (add sf a) e (l n (add sf a))) rest r left →
      Takes (l (n+1) sf) (text++rest) r left)
    {text : Bytes} {as : List α} (h : Separated el text as) (hf : text.length≤k)
    (sf : β) : Takes (l k sf) text (as.foldl add sf) [] := by
  induction h generalizing k sf with
  | @last text ows a ht ho =>
    have hn : k - 1 + 1 = k := by
      obtain ⟨c,tail,rfl,-⟩ := he _ _ ht
      simp only [List.length_append,List.length_cons] at hf
      omega
    rw [← hn]
    refine hl ht ?_ (takes_separator_last ho)
    simpa using ho.follows (follows_nil _)
  | @next text b a rest x as ht hb ha hr ih =>
    obtain ⟨c,tail,hc,-⟩ := he _ _ ht
    simp only [hc,List.length_append,List.length_cons] at hf
    have hlo := ih (show rest.length ≤ k - 1 by omega) (add sf x)
    obtain ⟨d,rest,rfl,hd⟩ := hr.exists_cons he
    rw [show k = k - 1 + 1 by omega]
    exact hl ht (hb.follows (follows_cons (by decide) _)) (takes_separator_next hb ha hd hlo)

end Separators

theorem takes_listLoop {mr : List (Member δ)} (h : Separated (MemberText co) text mr)
    (hf : text.length≤k) (m : List (Member δ)) : Takes (listLoop co k m) text (m++mr) [] := by
  have hlo := takes_loop (listLoop co) (fun m mb => m++[mb]) .trailingCommaInList
    (fun _ _ => MemberText.exists_cons) (fun ht hr hs => ?_) h hf m
  · simpa [← List.flatMap_def] using hlo
  · have hm := takes_parseItemOrInnerList co ht hr
    obtain ⟨c,tail,rfl,-⟩ := ht.exists_cons
    exact takes_eof (Takes.ite_neg (by simp) (hm.bind hs))

theorem takes_dictionaryLoop {es : List (Bytes × Member δ)}
    (h : Separated (EntryText co) text es) (hf : text.length≤k) (di : Table (Member δ)) :
    Takes (dictionaryLoop co k di) text (di.setAll es) [] := by
  refine takes_loop (dictionaryLoop co) (fun di e => di.set e.1 e.2) .trailingCommaInDictionary
    (fun _ _ => EntryText.exists_cons) (fun ht hr hs => ?_) h hf di
  obtain ⟨rs,hk,hv⟩ := takes_entry co ht hr
  obtain ⟨c,tail,rfl,-⟩ := ht.exists_cons
  exact takes_eof (Takes.ite_neg (by simp) (hk.bind (hv.bind hs)))

theorem Separated.append_spaces {x : Bytes → α → Prop} {as : List α}
    (h : Separated x text as) (hs : IsSpaces spaces) : Separated x (text++spaces) as := by
  induction h with
  | @last text ows a ht ho =>
    rw [List.append_assoc]
    refine .last ht fun c hc => ?_
    rcases List.mem_append.mp hc with hc | hc
    · exact ho c hc
    · rw [hs c hc]
      decide
  | next ht hb ha hr ih =>
    simpa using ih.next ht hb ha

/-- Trimmed of leading spaces, a text with spaces behind it is taken up to such spaces. -/
def Covers (means : Bytes → α → Prop) (parse : ParserM α) : Prop :=
  ∀ text spaces a,means text a → IsSpaces spaces →
    ∃ rest,IsSpaces rest ∧ Takes parse ((text++spaces).dropWhile (· = space)) a rest

theorem dropWhile_spaces (h : IsSpaces spaces) (rest : Bytes) :
    (spaces++rest).dropWhile (· = space)=rest.dropWhile (· = space) :=
  List.dropWhile_append_of_pos fun c hc => by simpa using h c hc

theorem takes_trim (i : Bytes) : Takes discardSp i ⟨⟩ (i.dropWhile (· = space)) := rfl

theorem takes_parseBody {m : Bytes → α → Prop} {p : ParserM α}
    (hp : Covers m p) {v : Bytes} {a : α} (h : Padded m v a) : Takes (parseBody p) v a [] := by
  obtain ⟨hb,ht,ha⟩ := h
  obtain ⟨rest,hr,hp⟩ := hp _ _ _ ht ha
  rw [← dropWhile_spaces hb] at hp
  refine Takes.bind (takes_trim _) (Takes.bind hp ?_)
  rw [← List.append_nil rest]
  exact takes_discardSp hr (follows_nil _) (takes_eof (Takes.ite_pos rfl Takes.pure))

theorem dropWhile_of_not_isOws {c : UInt8} (hc : isOws c=false) (rest : Bytes) :
    (c::rest).dropWhile (· = space)=c::rest := by
  have hs : c≠space := by
    rintro rfl
    exact absurd hc (by decide)
  simp [hs]

theorem covers_parseItemBody : Covers (ItemText co) (parseItemBody co) := by
  intro text spaces i ht hs
  have he : Follows endsItem spaces := by
    simpa using follows_spaces hs (by decide) (follows_nil endsItem)
  have hi := takes_parseItemBody co ht he
  obtain ⟨c,tail,rfl,hc⟩ := ht.exists_cons
  rw [List.cons_append,dropWhile_of_not_isOws (startsBareItem_facts c hc).1]
  exact ⟨spaces,hs,hi⟩

theorem covers_elements {x : Bytes → α → Prop} {β : Type} {p : ParserM β} {f : List α → β}
    (he : ∀ text a,x text a → ∃ c tail,text=c::tail ∧ isOws c=false) (hn : Takes p [] (f []) [])
    (hp : ∀ text as,Separated x text as → Takes p text (f as) []) :
    Covers (fun text b => ∃ as,Elements x text as ∧ b=f as) p := by
  rintro text spaces _ ⟨as,ht,rfl⟩ hs
  refine ⟨[],by simp [IsSpaces],?_⟩
  cases ht with
  | nil =>
    have hd : ([]++spaces).dropWhile (· = space)=[] := by simpa using fun c hc => hs c hc
    rw [hd]
    exact hn
  | some ht =>
    have hl := hp _ _ (ht.append_spaces hs)
    obtain ⟨c,tail,rfl,hc⟩ := ht.exists_cons he
    rwa [List.cons_append,dropWhile_of_not_isOws hc]

theorem covers_parseMembers :
    Covers (Elements (MemberText co)) (do listLoop co (← get).length []) := by
  have hc : Covers (fun text m => ∃ as,Elements (MemberText co) text as ∧ m=id as)
      (do listLoop co (← get).length []) :=
    covers_elements (fun _ _ => MemberText.exists_cons) Takes.pure
      fun _ _ h => Takes.get (takes_listLoop co h le_rfl [])
  intro text spaces m ht hs
  exact hc text spaces m ⟨m,ht,rfl⟩ hs

theorem covers_parseEntries :
    Covers (fun text d => ∃ es,Elements (EntryText co) text es ∧
      d=.ofPairs es) (do dictionaryLoop co (← get).length .empty) :=
  covers_elements (fun _ _ => EntryText.exists_cons) Takes.pure
    fun _ _ h => Takes.get (takes_dictionaryLoop co h le_rfl .empty)

end BlackBull.StructuredFields
