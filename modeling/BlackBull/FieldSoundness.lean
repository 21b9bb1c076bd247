import BlackBull.BareItemSoundness

/-!
# What the parser takes is in the language

The parsers of parameters, items, inner lists, lists and dictionaries, and `_parse_top` around
them: a field value that parses stands for the value it parses to, and one that does not raises
`ValueError`.
-/

namespace BlackBull.StructuredFields

open ByteString

variable {α δ : Type} (codec : Codec δ)

variable {M : Bytes → α → Prop} {p : ParserM α} {v : Bytes} (k : ℕ)

theorem sound_parametersLoop (p : Parameters δ) (i : Bytes) :
    Sound (fun text r => ∃ ps,ParametersText codec text ps ∧
      r=p.setAll ps) (parametersLoop codec k p) i := by
  induction k generalizing p i with
  | zero => exact Derives.pure ⟨[],.nil,rfl⟩
  | succ k ih =>
    refine sound_peek (Derives.ite (fun hh => ?_) fun _ => Derives.pure ⟨[],.nil,rfl⟩)
    obtain ⟨i,rfl⟩ := List.head?_eq_some_iff.mp hh
    refine sound_advance (sound_skip fun s i _ hs => ?_)
    have hs : IsSpaces s := fun c hc => by simpa using hs c hc
    refine (sound_parseKey i).bind ?_
    rintro _ i key - ⟨rfl,hk⟩
    refine sound_peek (Derives.ite (fun he => ?_) fun _ => ?_)
    · obtain ⟨i,rfl⟩ := List.head?_eq_some_iff.mp he
      refine sound_advance ((sound_parseBareItem codec i).bind ?_)
      intro v i b _ hv
      refine (ih (p.set key b) i).mono ?_
      rintro text _ ⟨ps,ht,rfl⟩
      exact ⟨(key,b)::ps,by simpa using ht.valued hs hk hv,rfl⟩
    · refine (ih (p.set key (.boolean true)) i).mono ?_
      rintro text _ ⟨ps,ht,rfl⟩
      exact ⟨(key,.boolean true)::ps,ht.flag hs hk,rfl⟩

theorem sound_parseParameters (i : Bytes) :
    Sound (fun text p => ∃ ps,ParametersText codec text ps ∧ p=.ofPairs ps)
      (parseParameters codec) i :=
  Derives.get (sound_parametersLoop codec i.length .empty i)

theorem sound_parseItemBody (i : Bytes) : Sound (ItemText codec) (parseItemBody codec) i := by
  refine (sound_parseBareItem codec i).bind ?_
  intro v i b _ hv
  refine (sound_parseParameters codec i).bind ?_
  rintro text i _ - ⟨ps,ht,rfl⟩
  exact Derives.pure (by simpa using ItemText.mk hv ht)

theorem InnerText.ne_nil {codec : Codec δ} {t : Bytes} {xs : List (Item δ)}
    (h : InnerText codec t xs) : t≠[] := by
  induction h with
  | close hs => simp
  | item hs hi hn hr ih => simp [ih]

theorem sound_innerListLoop (i : List (Item δ)) (inp : Bytes) :
    Sound (fun text r => ∃ body tail xs pairs,text=body++tail ∧
      InnerText codec body xs ∧ ParametersText codec tail pairs ∧
      r=(i++xs,.ofPairs pairs)) (innerListLoop codec k i) inp := by
  induction k generalizing i inp with
  | zero => exact sound_throw (by simp)
  | succ k ih =>
    refine sound_eof (Derives.ite (fun _ => sound_throw (by simp)) fun _ => ?_)
    refine sound_skip fun s inp _ hs => ?_
    have hs : IsSpaces s := fun c hc => by simpa using hs c hc
    refine sound_peek (Derives.ite (fun hcl => ?_) fun _ => ?_)
    · obtain ⟨inp,rfl⟩ := List.head?_eq_some_iff.mp hcl
      refine sound_advance ((sound_parseParameters codec inp).bind ?_)
      rintro tail inp _ - ⟨pairs,ht,rfl⟩
      exact Derives.pure ⟨_,tail,[],pairs,by simp,.close hs,ht,by simp⟩
    · refine (sound_parseItemBody codec inp).bind ?_
      intro text inp it _ hi
      refine sound_peek (Derives.ite (fun hn => ?_) fun _ => sound_throw (by simp))
      refine (ih (i++[it]) inp).mono_taken ?_
      rintro _ _ hta ⟨body,tail,xs,pairs,rfl,hb,ht,rfl⟩
      have hh : body.head? = inp.head? := by
        obtain ⟨c,body,rfl⟩ := List.exists_cons_of_ne_nil hb.ne_nil
        obtain ⟨rest,rfl⟩ := hta
        rfl
      rw [← hh] at hn
      exact ⟨_,tail,it::xs,pairs,by simp,hb.item hs hi hn,ht,by simp⟩

theorem sound_parseItemOrInnerList (i : Bytes) :
    Sound (MemberText codec) (parseItemOrInnerList codec) i := by
  refine sound_peek (Derives.ite (fun _ => Derives.map ?_ fun _ _ => id) fun _ =>
    (sound_parseItemBody codec i).map fun text it ht => .item ht)
  refine sound_expect fun rest _ => Derives.get ?_
  refine (sound_innerListLoop codec rest.length [] rest).mono ?_
  rintro _ _ ⟨body,tail,xs,pairs,rfl,hb,hta,rfl⟩
  exact .innerList hb hta

theorem sound_parseValue (key input : Bytes) (hk : IsKey key) :
    Sound (fun text m => EntryText codec (key++text) (key,m)) (parseValue codec)
      input := by
  refine sound_peek (Derives.ite (fun he => ?_) fun _ => ?_)
  · obtain ⟨input,rfl⟩ := List.head?_eq_some_iff.mp he
    refine sound_advance ((sound_parseItemOrInnerList codec input).mono ?_)
    exact fun text m ht => .valued hk ht
  · refine (sound_parseParameters codec input).bind ?_
    rintro text input _ - ⟨ps,ht,rfl⟩
    exact Derives.pure (by simpa using EntryText.flag hk ht)

/-- What follows an element: the end of the text, or a comma and more of it. -/
def separator (sofar : α) (fault : Fault) (again : ParserM α) : ParserM α := do
  discardOws
  if ← eof then pure sofar
  else
    expect comma
    discardOws
    if ← eof then throw fault else again

theorem sound_separator {r : α} {f : Fault} {ag : ParserM α} {i : Bytes}
    (hf : f≠.indexError) (hl : ∀ ows,IsOws ows → M ows r)
    (hn : ∀ b af rest,IsOws b → IsOws af → rest≠[] → rest.length < i.length →
      Sound (fun text a => M (b++comma::(af++text)) a) ag rest) : Sound M (separator r f ag) i := by
  refine sound_skip fun b rest hi hb => ?_
  refine sound_eof (Derives.ite (fun _ => ?_) fun _ => ?_)
  · exact Derives.pure (by simpa using hl b hb)
  · refine sound_expect fun rs hr => sound_skip fun af r' hr' ha => ?_
    refine sound_eof (Derives.ite (fun _ => sound_throw hf) fun hne => ?_)
    refine hn b af r' hb ha (by simpa using hne) ?_
    subst hi hr hr'
    simp only [List.length_append,List.length_cons]
    omega

theorem sound_listLoop (m : List (Member δ)) {i : Bytes} (hne : i≠[]) (hf : i.length≤k) :
    Sound (fun text r => ∃ mr,Separated (MemberText codec) text mr ∧
      r=m++mr) (listLoop codec k m) i := by
  induction k generalizing m i with
  | zero => exact absurd (List.eq_nil_of_length_eq_zero (by omega)) hne
  | succ k ih =>
    refine sound_eof (Derives.ite (fun he => absurd he (by simpa using hne)) fun _ => ?_)
    refine (sound_parseItemOrInnerList codec i).bind ?_
    intro text i' me hi ht
    refine sound_separator (by simp) (fun ows ho => ?_) ?_
    · exact ⟨[me],.last ht ho,rfl⟩
    · intro b a rest hb ha hr hl
      have hle : rest.length≤k := by
        have := congrArg List.length hi
        rw [List.length_append] at this
        omega
      refine (ih (m++[me]) hr hle).mono ?_
      rintro t _ ⟨mr,hm,rfl⟩
      exact ⟨me::mr,hm.next ht hb ha,by simp⟩

theorem sound_dictionaryLoop (d : Table (Member δ)) {i : Bytes} (hne : i≠[]) (hf : i.length≤k) :
    Sound (fun text r => ∃ es,Separated (EntryText codec) text es ∧
      r=d.setAll es) (dictionaryLoop codec k d) i := by
  induction k generalizing d i with
  | zero => exact absurd (List.eq_nil_of_length_eq_zero (by omega)) hne
  | succ k ih =>
    refine sound_eof (Derives.ite (fun he => absurd he (by simpa using hne)) fun _ => ?_)
    refine (sound_parseKey i).bind ?_
    rintro _ i' key hi ⟨rfl,hk⟩
    refine (sound_parseValue codec key i' hk).bind ?_
    intro text i'' m hi' ht
    refine sound_separator (by simp) (fun ows ho => ?_) ?_
    · exact ⟨[(key,m)],by simpa using Separated.last ht ho,rfl⟩
    · intro b a rest hb ha hr hl
      have hle : rest.length≤k := by
        have := congrArg List.length hi
        have := congrArg List.length hi'
        rw [List.length_append] at *
        omega
      refine (ih (d.set key m) hr hle).mono ?_
      rintro t _ ⟨es,hen,rfl⟩
      exact ⟨(key,m)::es,by simpa using hen.next ht hb ha,rfl⟩

theorem sound_parseMembers (i : Bytes) :
    Sound (Elements (MemberText codec)) (do listLoop codec (← get).length []) i := by
  refine Derives.get ?_
  by_cases he : i=[]
  · subst he
    exact Derives.pure .nil
  · refine (sound_listLoop codec i.length [] he le_rfl).mono ?_
    rintro text _ ⟨m,hm,rfl⟩
    exact .some hm

theorem sound_parseEntries (i : Bytes) :
    Sound (fun text d => ∃ es,Elements (EntryText codec) text es ∧
      d=.ofPairs es) (do dictionaryLoop codec (← get).length .empty) i := by
  refine Derives.get ?_
  by_cases he : i=[]
  · subst he
    exact Derives.pure ⟨[],.nil,rfl⟩
  · refine (sound_dictionaryLoop codec i.length .empty he le_rfl).mono ?_
    rintro text _ ⟨es,hen,rfl⟩
    exact ⟨es,.some hen,rfl⟩

variable {codec}

theorem parseBody_ensures (hp : ∀ i,Sound M p i) (tx : Bytes) :
    Ensures (parseBody p) tx (fun a _ => Padded M tx a) fun f _ =>
      f.isValueError := by
  have hb : Sound (fun t a => t=tx ∧ Padded M tx a) (parseBody p) tx := by
    refine sound_skip fun b rest ht hbe => ?_
    refine (hp rest).bind ?_
    intro body r a hr hb
    refine sound_skip fun af r' hr' ha => ?_
    refine sound_eof (Derives.ite (fun he => Derives.pure ?_) fun _ => sound_throw (by simp))
    obtain rfl : r'=[] := by simpa using he
    subst ht hr hr'
    refine ⟨by simp,?_⟩
    rw [List.append_nil]
    exact .mk (fun c hc => by simpa using hbe c hc) hb fun c hc => by simpa using ha c hc
  exact Ensures.mono hb (fun a _ ⟨_,_,_,h⟩ => h) fun _ _ => id

theorem parseTop_eq_ok_iff {a : α} :
    parseTop p v=.ok a ↔
      (∀ c∈v,c<128) ∧ ∃ rest,parseBody p v=.ok a rest := by
  unfold parseTop toText
  by_cases ha : v.all (· < 128)=true
  · have hal : ∀ c∈v,c<128 := by simpa using ha
    simp only [if_pos ha]
    cases hb : parseBody p v with
    | ok r rest => simpa [hb] using fun _ => hal
    | error f rest => simp
  · rw [if_neg ha]
    refine iff_of_false (by simp) fun ⟨hal,_⟩ => ha ?_
    simpa using hal

theorem padded_of_parseTop (hp : ∀ i,Sound M p i) {a : α}
    (h : parseTop p v=.ok a) : Padded M v a := by
  obtain ⟨-,rest,hb⟩ := parseTop_eq_ok_iff.mp h
  exact (parseBody_ensures hp v).ok hb

theorem isValueError_of_parseTop (hp : ∀ i,Sound M p i) {f : Fault}
    (h : parseTop p v=.error f) : f.isValueError := by
  unfold parseTop toText at h
  by_cases ha : v.all (· < 128)=true
  · simp only [if_pos ha] at h
    cases hb : parseBody p v with
    | ok r rest =>
      simp only [hb] at h
      exact absurd h (by simp)
    | error ra rest =>
      simp only [hb] at h
      obtain rfl : ra=f := Except.error.inj h
      exact (parseBody_ensures hp v).error hb
  · rw [if_neg ha] at h
    obtain rfl : Fault.notAscii=f := Except.error.inj h
    simp [Fault.isValueError]

end BlackBull.StructuredFields
