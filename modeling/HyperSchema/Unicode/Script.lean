import HyperSchema.Unicode.Runs

/-!
# Scripts

Every code point belongs to one script. The table gives the four-letter codes of successive runs of
code points, each with its length in hexadecimal.
-/

namespace HyperSchema.Unicode

def scriptRuns : String :=
  String.join [
    "Zyyy41Latn1aZyyy6Latn1aZyyy2fLatn1ZyyyfLatn1Zyyy5Latn17Zyyy1Latn1fZyyy1Latn1c1Zyyy27Latn5Zyyy5",
    "Bopo2Zyyy14Zinh70Grek4Zyyy1Grek3Zzzz2Grek4Zyyy1Grek1Zzzz4Grek1Zyyy1Grek1Zyyy1Grek3Zzzz1Grek1",
    "Zzzz1Grek14Zzzz1Grek3fCopteGrek10Cyrl85Zinh2Cyrla9Zzzz1Armn26Zzzz2Armn32Zzzz2Armn3Zzzz1Hebr37",
    "Zzzz8Hebr1bZzzz4Hebr6ZzzzbArab5Zyyy1Arab6Zyyy1ArabeZyyy1Arab3Zyyy1Arab20Zyyy1ArabaZinhbArab1a",
    "Zinh1Arab6cZyyy1Arab22SyrceZzzz1Syrc3cZzzz2Syrc3Arab30Thaa32ZzzzeNkoo3bZzzz2Nkoo3Samr2eZzzz2",
    "SamrfZzzz1Mand1cZzzz2Mand1Zzzz1SyrcbZzzz5Arab1fZzzz1Arab2Zzzz6Arab4aZyyy1Arab1dDeva51Zinh4Devaf",
    "Zyyy2Deva1aBeng4Zzzz1Beng8Zzzz2Beng2Zzzz2Beng16Zzzz1Beng7Zzzz1Beng1Zzzz3Beng4Zzzz2Beng9Zzzz2",
    "Beng2Zzzz2Beng4Zzzz8Beng1Zzzz4Beng2Zzzz1Beng5Zzzz2Beng19Zzzz2Guru3Zzzz1Guru6Zzzz4Guru2Zzzz2",
    "Guru16Zzzz1Guru7Zzzz1Guru2Zzzz1Guru2Zzzz1Guru2Zzzz2Guru1Zzzz1Guru5Zzzz4Guru2Zzzz2Guru3Zzzz3Guru1",
    "Zzzz7Guru4Zzzz1Guru1Zzzz7Guru11ZzzzaGujr3Zzzz1Gujr9Zzzz1Gujr3Zzzz1Gujr16Zzzz1Gujr7Zzzz1Gujr2",
    "Zzzz1Gujr5Zzzz2GujraZzzz1Gujr3Zzzz1Gujr3Zzzz2Gujr1ZzzzfGujr4Zzzz2GujrcZzzz7Gujr7Zzzz1Orya3Zzzz1",
    "Orya8Zzzz2Orya2Zzzz2Orya16Zzzz1Orya7Zzzz1Orya2Zzzz1Orya5Zzzz2Orya9Zzzz2Orya2Zzzz2Orya3Zzzz7Orya3",
    "Zzzz4Orya2Zzzz1Orya5Zzzz2Orya12ZzzzaTaml2Zzzz1Taml6Zzzz3Taml3Zzzz1Taml4Zzzz3Taml2Zzzz1Taml1Zzzz1",
    "Taml2Zzzz3Taml2Zzzz3Taml3Zzzz3TamlcZzzz4Taml5Zzzz3Taml3Zzzz1Taml4Zzzz2Taml1Zzzz6Taml1ZzzzeTaml15",
    "Zzzz5TeludZzzz1Telu3Zzzz1Telu17Zzzz1Telu10Zzzz2Telu9Zzzz1Telu3Zzzz1Telu4Zzzz7Telu2Zzzz1Telu3",
    "Zzzz2Telu1Zzzz2Telu4Zzzz2TeluaZzzz7Telu9KndadZzzz1Knda3Zzzz1Knda17Zzzz1KndaaZzzz1Knda5Zzzz2Knda9",
    "Zzzz1Knda3Zzzz1Knda4Zzzz7Knda2Zzzz6Knda2Zzzz1Knda4Zzzz2KndaaZzzz1Knda3ZzzzcMlymdZzzz1Mlym3Zzzz1",
    "Mlym33Zzzz1Mlym3Zzzz1Mlym6Zzzz4Mlym10Zzzz2Mlym1aZzzz1Sinh3Zzzz1Sinh12Zzzz3Sinh18Zzzz1Sinh9Zzzz1",
    "Sinh1Zzzz2Sinh7Zzzz3Sinh1Zzzz4Sinh6Zzzz1Sinh1Zzzz1Sinh8Zzzz6SinhaZzzz2Sinh3ZzzzcThai3aZzzz4Zyyy1",
    "Thai1cZzzz25Laoo2Zzzz1Laoo1Zzzz1Laoo5Zzzz1Laoo18Zzzz1Laoo1Zzzz1Laoo17Zzzz2Laoo5Zzzz1Laoo1Zzzz1",
    "Laoo7Zzzz1LaooaZzzz2Laoo4Zzzz20Tibt48Zzzz1Tibt24Zzzz4Tibt27Zzzz1Tibt24Zzzz1TibtfZzzz1Tibt7Zyyy4",
    "Tibt2Zzzz25Mymra0Geor26Zzzz1Geor1Zzzz5Geor1Zzzz2Geor2bZyyy1Geor4Hang100Ethi49Zzzz1Ethi4Zzzz2",
    "Ethi7Zzzz1Ethi1Zzzz1Ethi4Zzzz2Ethi29Zzzz1Ethi4Zzzz2Ethi21Zzzz1Ethi4Zzzz2Ethi7Zzzz1Ethi1Zzzz1",
    "Ethi4Zzzz2EthifZzzz1Ethi39Zzzz1Ethi4Zzzz2Ethi43Zzzz2Ethi20Zzzz3Ethi1aZzzz6Cher56Zzzz2Cher6Zzzz2",
    "Cans280Ogam1dZzzz3Runr4bZyyy3RunrbZzzz7Tglg16Zzzz9Tglg1Hano15Zyyy2Zzzz9Buhd14ZzzzcTagbdZzzz1",
    "Tagb3Zzzz1Tagb2ZzzzcKhmr5eZzzz2KhmraZzzz6KhmraZzzz6Mong2Zyyy2Mong1Zyyy1Mong14Zzzz6Mong59Zzzz7",
    "Mong2bZzzz5Cans46ZzzzaLimb1fZzzz1LimbcZzzz4LimbcZzzz4Limb1Zzzz3LimbcTale1eZzzz2Tale5ZzzzbTalu2c",
    "Zzzz4Talu1aZzzz6TalubZzzz3Talu2Khmr20Bugi1cZzzz2Bugi2Lana3fZzzz1Lana1dZzzz2LanabZzzz6LanaaZzzz6",
    "LanaeZzzz2Zinh1fZzzz31Bali4dZzzz3Bali2fZzzz1Sund40Batk34Zzzz8Batk4Lepc38Zzzz3LepcfZzzz3Lepc3",
    "Olck30Cyrl9Zzzz7Geor2bZzzz2Geor3Sund8Zzzz8Zinh3Zyyy1ZinhdZyyy1Zinh7Zyyy4Zinh1Zyyy6Zinh1Zyyy3",
    "Zinh2Zyyy1Zzzz5Latn26Grek5Cyrl1Latn31Grek5Latn4Grek5LatndCyrl1Latn46Grek1Zinh40Latn100Grek16",
    "Zzzz2Grek6Zzzz2Grek26Zzzz2Grek6Zzzz2Grek8Zzzz1Grek1Zzzz1Grek1Zzzz1Grek1Zzzz1Grek1fZzzz2Grek35",
    "Zzzz1GrekfZzzz1GrekeZzzz2Grek6Zzzz1Grek13Zzzz2Grek3Zzzz1Grek9Zzzz1ZyyycZinh2Zyyy57Zzzz1Zyyyb",
    "Latn1Zzzz2ZyyybLatn1ZyyyfZzzz1LatndZzzz3Zyyy21ZzzzfZinh21ZzzzfZyyy26Grek1Zyyy3Latn2Zyyy6Latn1",
    "Zyyy1bLatn1Zyyy11Latn29Zyyy3Zzzz4Zyyy297Zzzz19ZyyybZzzz15Zyyy3a0Brai100Zyyy274Zzzz2Zyyy20Zzzz1",
    "Zyyy69Glag60Latn20Copt74Zzzz5Copt7Geor26Zzzz1Geor1Zzzz5Geor1Zzzz2Tfng38Zzzz7Tfng2ZzzzeTfng1",
    "Ethi17Zzzz9Ethi7Zzzz1Ethi7Zzzz1Ethi7Zzzz1Ethi7Zzzz1Ethi7Zzzz1Ethi7Zzzz1Ethi7Zzzz1Ethi7Zzzz1",
    "Cyrl20Zyyy5eZzzz22Hani1aZzzz1Hani59ZzzzcHanid6Zzzz1aZyyycZzzz4Zyyy5Hani1Zyyy1Hani1Zyyy19Hani9",
    "Zinh4Hang2Zyyy8Hani4Zyyy4Zzzz1Hira56Zzzz2Zinh2Zyyy2Hira3Zyyy1Kana5aZyyy2Kana3Zzzz5Bopo2bZzzz1",
    "Hang5eZzzz1Zyyy10Bopo20Zyyy24ZzzzcKana10Hang1fZzzz1Zyyy40Hang1fZyyy51Kana2fZyyy1Kana58Zyyya8",
    "Hani19c0Zyyy40Hani5200Yiii48dZzzz3Yiii37Zzzz9Lisu30Vaii12cZzzz14Cyrl60Bamu58Zzzz8Zyyy22Latn66",
    "Zyyy3Latn40Zzzz5Latn2Zzzz1Latn1Zzzz1Latn5Zzzz18LatneSylo2dZzzz3ZyyyaZzzz6Phag38Zzzz8Saur46Zzzz8",
    "SaurcZzzz6Deva20Kali2eZyyy1Kali1Rjng24ZzzzbRjng1Hang1dZzzz3Java4eZzzz1Zyyy1JavaaZzzz4Java2Mymr1f",
    "Zzzz1Cham37Zzzz9ChameZzzz2ChamaZzzz2Cham4Mymr20Tavt43Zzzz18Tavt5Mtei17ZzzzaEthi6Zzzz2Ethi6Zzzz2",
    "Ethi6Zzzz9Ethi7Zzzz1Ethi7Zzzz1Latn2bZyyy1Latn9Grek1Latn4Zyyy2Zzzz4Cher50Mtei2eZzzz2MteiaZzzz6",
    "Hang2ba4ZzzzcHang17Zzzz4Hang31Zzzz2104Hani16eZzzz2Hani6aZzzz26Latn7ZzzzcArmn5Zzzz5Hebr1aZzzz1",
    "Hebr5Zzzz1Hebr1Zzzz1Hebr2Zzzz1Hebr2Zzzz1HebraArab73Zzzz10Arab16bZyyy2Arab50Zzzz2Arab36Zzzz7Arab1",
    "Zzzz20Arab10Zinh10ZyyyaZzzz6ZinheCyrl2Zyyy23Zzzz1Zyyy13Zzzz1Zyyy4Zzzz4Arab5Zzzz1Arab87Zzzz2Zyyy1",
    "Zzzz1Zyyy20Latn1aZyyy6Latn1aZyyybKanaaZyyy1Kana2dZyyy2Hang1fZzzz3Hang6Zzzz2Hang6Zzzz2Hang6Zzzz2",
    "Hang3Zzzz3Zyyy7Zzzz1Zyyy7ZzzzaZyyy5Zzzz2LinbcZzzz1Linb1aZzzz1Linb13Zzzz1Linb2Zzzz1LinbfZzzz2",
    "LinbeZzzz22Linb7bZzzz5Zyyy3Zzzz4Zyyy2dZzzz3Zyyy9Grek4fZzzz1ZyyydZzzz3Grek1Zzzz2fZyyy2dZinh1",
    "Zzzz82Lyci1dZzzz3Cari31ZzzzfZinh1Zyyy1bZzzz4Ital24Zzzz9Ital3Goth1bZzzz5Perm2bZzzz5Ugar1eZzzz1",
    "Ugar1Xpeo24Zzzz4XpeoeZzzz2aDsrt50Shaw30Osma1eZzzz2OsmaaZzzz6Osge24Zzzz4Osge24Zzzz4Elba28Zzzz8",
    "Aghb34ZzzzbAghb1VithbZzzz1VithfZzzz1Vith7Zzzz1Vith2Zzzz1VithbZzzz1VithfZzzz1Vith7Zzzz1Vith2",
    "Zzzz43Lina137Zzzz9Lina16ZzzzaLina8Zzzz18Latn6Zzzz1Latn2aZzzz1Latn9Zzzz45Cprt6Zzzz2Cprt1Zzzz1",
    "Cprt2cZzzz1Cprt2Zzzz3Cprt1Zzzz2Cprt1Armi16Zzzz1Armi9Palm20Nbat1fZzzz8Nbat9Zzzz30Hatr13Zzzz1Hatr2",
    "Zzzz5Hatr5Phnx1cZzzz3Phnx1Lydi1aZzzz5Lydi1Zzzz40Mero20Merc18Zzzz4Merc14Zzzz2Merc2eKhar4Zzzz1",
    "Khar2Zzzz5Khar8Zzzz1Khar3Zzzz1Khar1dZzzz2Khar3Zzzz4KharaZzzz7Khar9Zzzz7Sarb20Narb20Zzzz20Mani27",
    "Zzzz4ManicZzzz9Avst36Zzzz3Avst7Prti16Zzzz2Prti8Phli13Zzzz5Phli8Phlp12Zzzz7Phlp4ZzzzcPhlp7Zzzz50",
    "Orkh49Zzzz37Hung33ZzzzdHung33Zzzz7Hung6Rohg28Zzzz8RohgaZzzz126Arab1fZzzz1Yezi2aZzzz1Yezi3Zzzz2",
    "Yezi2Zzzz4bArab3Sogo28Zzzz8Sogd2aZzzz16Ougr1aZzzz26Chrs1cZzzz14Elym17Zzzz9Brah4eZzzz4Brah24Zzzz9",
    "Brah1Kthi43ZzzzaKthi1Zzzz2Sora19Zzzz7SoraaZzzz6Cakm35Zzzz1Cakm12Zzzz8Mahj27Zzzz9Shrd60Zzzz1",
    "Sinh14ZzzzbKhoj12Zzzz1Khoj2fZzzz3eMult7Zzzz1Mult1Zzzz1Mult4Zzzz1MultfZzzz1MultbZzzz6Sind3bZzzz5",
    "SindaZzzz6Gran4Zzzz1Gran8Zzzz2Gran2Zzzz2Gran16Zzzz1Gran7Zzzz1Gran2Zzzz1Gran5Zzzz1Zinh1Gran9Zzzz2",
    "Gran2Zzzz2Gran3Zzzz2Gran1Zzzz6Gran1Zzzz5Gran7Zzzz2Gran7Zzzz3Gran5Zzzz8bNewa5cZzzz1Newa5Zzzz1e",
    "Tirh48Zzzz8TirhaZzzza6Sidd36Zzzz2Sidd26Zzzz22Modi45ZzzzbModiaZzzz6MongdZzzz13Takr3aZzzz6Takra",
    "Zzzz36Ahom1bZzzz2AhomfZzzz4Ahom17Zzzzb9Dogr3cZzzz64Wara53ZzzzcWara1Diak7Zzzz2Diak1Zzzz2Diak8",
    "Zzzz1Diak2Zzzz1Diak1eZzzz1Diak2Zzzz2DiakcZzzz9DiakaZzzz46Nand8Zzzz2Nand2eZzzz2NandbZzzz1bZanb48",
    "Zzzz8Soyo53ZzzzdCans10Pauc39Zzzz7DevaaZzzzf6Bhks9Zzzz1Bhks2dZzzz1BhkseZzzzaBhks1dZzzz3Marc20",
    "Zzzz2Marc16Zzzz1MarceZzzz49Gonm7Zzzz1Gonm2Zzzz1Gonm2cZzzz3Gonm1Zzzz1Gonm2Zzzz1Gonm9Zzzz8Gonma",
    "Zzzz6Gong6Zzzz1Gong2Zzzz1Gong25Zzzz1Gong2Zzzz1Gong6Zzzz7GongaZzzz136Maka19Zzzz7Kawi11Zzzz1Kawi29",
    "Zzzz3Kawi1cZzzz56Lisu1ZzzzfTaml32ZzzzdTaml1Xsux39aZzzz66Xsux6fZzzz1Xsux5ZzzzbXsuxc4Zzzza4cCpmn63",
    "ZzzzdEgyp456ZzzzfaaHluw247Zzzz21b9Bamu239Zzzz7Mroo1fZzzz1MrooaZzzz4Mroo2Tnsa4fZzzz1TnsaaZzzz6",
    "Bass1eZzzz2Bass6ZzzzaHmng46ZzzzaHmngaZzzz1Hmng7Zzzz1Hmng15Zzzz5Hmng13Zzzz2b0Medf5bZzzz65Plrd4b",
    "Zzzz4Plrd39Zzzz7Plrd11Zzzz40Tang1Nshu1Hani2Kits1ZzzzbHani2ZzzzeTang17f8Zzzz8Tang300Kits1d6Zzzz2a",
    "Tang9Zzzz22e7Kana4Zzzz1Kana7Zzzz1Kana2Zzzz1Kana1Hira11fKana3ZzzzfHira1Zzzz1dHira3Zzzz2Kana1Zzzze",
    "Kana4Zzzz8Nshu18cZzzz904Dupl6bZzzz5DupldZzzz3Dupl9Zzzz7DuplaZzzz2Dupl4Zyyy4Zzzz125cZinh2eZzzz2",
    "Zinh17Zzzz9Zyyy74Zzzz3cZyyyf6ZzzzaZyyy27Zzzz2Zyyy3eZinh3Zyyy11Zinh8Zyyy2Zinh7Zyyy1eZinh4Zyyy3d",
    "Zzzz15Grek46Zzzz7aZyyy14ZzzzcZyyy14ZzzzcZyyy57Zzzz9Zyyy19Zzzz87Zyyy55Zzzz1Zyyy47Zzzz1Zyyy2Zzzz2",
    "Zyyy1Zzzz2Zyyy2Zzzz2Zyyy4Zzzz1ZyyycZzzz1Zyyy1Zzzz1Zyyy7Zzzz1Zyyy41Zzzz1Zyyy4Zzzz2Zyyy8Zzzz1Zyyy7",
    "Zzzz1Zyyy1cZzzz1Zyyy4Zzzz1Zyyy5Zzzz1Zyyy1Zzzz3Zyyy7Zzzz1Zyyy154Zzzz2Zyyy124Zzzz2Zyyy32Sgnw28c",
    "ZzzzfSgnw5Zzzz1SgnwfZzzz450Latn1fZzzz6Latn6Zzzzd5Glag7Zzzz1Glag11Zzzz2Glag7Zzzz1Glag2Zzzz1Glag5",
    "Zzzz5Cyrl3eZzzz21Cyrl1Zzzz70Hmnp2dZzzz3HmnpeZzzz2HmnpaZzzz4Hmnp2Zzzz140Toto1fZzzz11Wcho3aZzzz5",
    "Wcho1Zzzz1d0Nagm2aZzzz2e6Ethi7Zzzz1Ethi4Zzzz1Ethi2Zzzz1EthifZzzz1Mendc5Zzzz2Mend10Zzzz29Adlm4c",
    "Zzzz4AdlmaZzzz4Adlm2Zzzz311Zyyy44Zzzz4cZyyy3dZzzzc2Arab4Zzzz1Arab1bZzzz1Arab2Zzzz1Arab1Zzzz2",
    "Arab1Zzzz1ArabaZzzz1Arab4Zzzz1Arab1Zzzz1Arab1Zzzz6Arab1Zzzz4Arab1Zzzz1Arab1Zzzz1Arab1Zzzz1Arab3",
    "Zzzz1Arab2Zzzz1Arab1Zzzz2Arab1Zzzz1Arab1Zzzz1Arab1Zzzz1Arab1Zzzz1Arab1Zzzz1Arab2Zzzz1Arab1Zzzz2",
    "Arab4Zzzz1Arab7Zzzz1Arab4Zzzz1Arab4Zzzz1Arab1Zzzz1ArabaZzzz1Arab11Zzzz5Arab3Zzzz1Arab5Zzzz1",
    "Arab11Zzzz34Arab2Zzzz10eZyyy2cZzzz4Zyyy64ZzzzcZyyyfZzzz2ZyyyfZzzz1ZyyyfZzzz1Zyyy25ZzzzaZyyyae",
    "Zzzz38Zyyy1aHira1Zyyy2ZzzzdZyyy2cZzzz4Zyyy9Zzzz7Zyyy2ZzzzeZyyy6Zzzz9aZyyy3d8Zzzz4Zyyy11Zzzz3",
    "ZyyydZzzz3Zyyy77Zzzz4Zyyy5fZzzz6ZyyycZzzz4Zyyy1ZzzzfZyyycZzzz4Zyyy38Zzzz8ZyyyaZzzz6Zyyy28Zzzz8",
    "Zyyy1eZzzz2Zyyy2Zzzz4eZyyy154ZzzzcZyyyeZzzz2ZyyydZzzz3Zyyy9Zzzz7Zyyy2eZzzz1Zyyy7Zzzz8ZyyyeZzzz4",
    "Zyyy9Zzzz7Zyyy9Zzzz7Zyyy93Zzzz1Zyyy37Zzzz25ZyyyaZzzz406Hania6e0Zzzz20Hani103aZzzz6HanideZzzz2",
    "Hani1682ZzzzeHani1d31Zzzzc1fHani21eZzzz5e2Hani134bZzzz5Hani1060Zzzzadc51Zyyy1Zzzz1eZyyy60Zzzz80",
    "Zinhf0Zzzz2fe10"]

/-- The loose names of the scripts. -/
def scriptNames : List (String × List String) :=
  [("Adlm", ["adlam", "adlm"]), ("Aghb", ["aghb", "caucasianalbanian"]), ("Ahom", ["ahom"]),
    ("Arab", ["arab", "arabic"]), ("Armi", ["armi", "imperialaramaic"]),
    ("Armn", ["armenian", "armn"]), ("Avst", ["avestan", "avst"]), ("Bali", ["bali", "balinese"]),
    ("Bamu", ["bamu", "bamum"]), ("Bass", ["bass", "bassavah"]), ("Batk", ["batak", "batk"]),
    ("Beng", ["beng", "bengali"]), ("Bhks", ["bhaiksuki", "bhks"]), ("Bopo", ["bopo", "bopomofo"]),
    ("Brah", ["brah", "brahmi"]), ("Brai", ["brai", "braille"]), ("Bugi", ["bugi", "buginese"]),
    ("Buhd", ["buhd", "buhid"]), ("Cakm", ["cakm", "chakma"]),
    ("Cans", ["canadianaboriginal", "cans"]), ("Cari", ["cari", "carian"]), ("Cham", ["cham"]),
    ("Cher", ["cher", "cherokee"]), ("Chrs", ["chorasmian", "chrs"]),
    ("Copt", ["copt", "coptic", "qaac"]), ("Cpmn", ["cpmn", "cyprominoan"]),
    ("Cprt", ["cprt", "cypriot"]), ("Cyrl", ["cyrillic", "cyrl"]),
    ("Deva", ["deva", "devanagari"]), ("Diak", ["diak", "divesakuru"]),
    ("Dogr", ["dogr", "dogra"]), ("Dsrt", ["deseret", "dsrt"]), ("Dupl", ["dupl", "duployan"]),
    ("Egyp", ["egyp", "egyptianhieroglyphs"]), ("Elba", ["elba", "elbasan"]),
    ("Elym", ["elym", "elymaic"]), ("Ethi", ["ethi", "ethiopic"]), ("Geor", ["geor", "georgian"]),
    ("Glag", ["glag", "glagolitic"]), ("Gong", ["gong", "gunjalagondi"]),
    ("Gonm", ["gonm", "masaramgondi"]), ("Goth", ["goth", "gothic"]),
    ("Gran", ["gran", "grantha"]), ("Grek", ["greek", "grek"]), ("Gujr", ["gujarati", "gujr"]),
    ("Guru", ["gurmukhi", "guru"]), ("Hang", ["hang", "hangul"]), ("Hani", ["han", "hani"]),
    ("Hano", ["hano", "hanunoo"]), ("Hatr", ["hatr", "hatran"]), ("Hebr", ["hebr", "hebrew"]),
    ("Hira", ["hira", "hiragana"]), ("Hluw", ["anatolianhieroglyphs", "hluw"]),
    ("Hmng", ["hmng", "pahawhhmong"]), ("Hmnp", ["hmnp", "nyiakengpuachuehmong"]),
    ("Hung", ["hung", "oldhungarian"]), ("Ital", ["ital", "olditalic"]),
    ("Java", ["java", "javanese"]), ("Kali", ["kali", "kayahli"]), ("Kana", ["kana", "katakana"]),
    ("Kawi", ["kawi"]), ("Khar", ["khar", "kharoshthi"]), ("Khmr", ["khmer", "khmr"]),
    ("Khoj", ["khoj", "khojki"]), ("Kits", ["khitansmallscript", "kits"]),
    ("Knda", ["kannada", "knda"]), ("Kthi", ["kaithi", "kthi"]), ("Lana", ["lana", "taitham"]),
    ("Laoo", ["lao", "laoo"]), ("Latn", ["latin", "latn"]), ("Lepc", ["lepc", "lepcha"]),
    ("Limb", ["limb", "limbu"]), ("Lina", ["lina", "lineara"]), ("Linb", ["linb", "linearb"]),
    ("Lisu", ["lisu"]), ("Lyci", ["lyci", "lycian"]), ("Lydi", ["lydi", "lydian"]),
    ("Mahj", ["mahajani", "mahj"]), ("Maka", ["maka", "makasar"]), ("Mand", ["mand", "mandaic"]),
    ("Mani", ["mani", "manichaean"]), ("Marc", ["marc", "marchen"]),
    ("Medf", ["medefaidrin", "medf"]), ("Mend", ["mend", "mendekikakui"]),
    ("Merc", ["merc", "meroiticcursive"]), ("Mero", ["mero", "meroitichieroglyphs"]),
    ("Mlym", ["malayalam", "mlym"]), ("Modi", ["modi"]), ("Mong", ["mong", "mongolian"]),
    ("Mroo", ["mro", "mroo"]), ("Mtei", ["meeteimayek", "mtei"]), ("Mult", ["mult", "multani"]),
    ("Mymr", ["myanmar", "mymr"]), ("Nagm", ["nagm", "nagmundari"]),
    ("Nand", ["nand", "nandinagari"]), ("Narb", ["narb", "oldnortharabian"]),
    ("Nbat", ["nabataean", "nbat"]), ("Newa", ["newa"]), ("Nkoo", ["nko", "nkoo"]),
    ("Nshu", ["nshu", "nushu"]), ("Ogam", ["ogam", "ogham"]), ("Olck", ["olchiki", "olck"]),
    ("Orkh", ["oldturkic", "orkh"]), ("Orya", ["oriya", "orya"]), ("Osge", ["osage", "osge"]),
    ("Osma", ["osma", "osmanya"]), ("Ougr", ["olduyghur", "ougr"]),
    ("Palm", ["palm", "palmyrene"]), ("Pauc", ["pauc", "paucinhau"]),
    ("Perm", ["oldpermic", "perm"]), ("Phag", ["phag", "phagspa"]),
    ("Phli", ["inscriptionalpahlavi", "phli"]), ("Phlp", ["phlp", "psalterpahlavi"]),
    ("Phnx", ["phnx", "phoenician"]), ("Plrd", ["miao", "plrd"]),
    ("Prti", ["inscriptionalparthian", "prti"]), ("Rjng", ["rejang", "rjng"]),
    ("Rohg", ["hanifirohingya", "rohg"]), ("Runr", ["runic", "runr"]),
    ("Samr", ["samaritan", "samr"]), ("Sarb", ["oldsoutharabian", "sarb"]),
    ("Saur", ["saur", "saurashtra"]), ("Sgnw", ["sgnw", "signwriting"]),
    ("Shaw", ["shavian", "shaw"]), ("Shrd", ["sharada", "shrd"]), ("Sidd", ["sidd", "siddham"]),
    ("Sind", ["khudawadi", "sind"]), ("Sinh", ["sinh", "sinhala"]), ("Sogd", ["sogd", "sogdian"]),
    ("Sogo", ["oldsogdian", "sogo"]), ("Sora", ["sora", "sorasompeng"]),
    ("Soyo", ["soyo", "soyombo"]), ("Sund", ["sund", "sundanese"]),
    ("Sylo", ["sylo", "sylotinagri"]), ("Syrc", ["syrc", "syriac"]),
    ("Tagb", ["tagb", "tagbanwa"]), ("Takr", ["takr", "takri"]), ("Tale", ["taile", "tale"]),
    ("Talu", ["newtailue", "talu"]), ("Taml", ["tamil", "taml"]), ("Tang", ["tang", "tangut"]),
    ("Tavt", ["taiviet", "tavt"]), ("Telu", ["telu", "telugu"]), ("Tfng", ["tfng", "tifinagh"]),
    ("Tglg", ["tagalog", "tglg"]), ("Thaa", ["thaa", "thaana"]), ("Thai", ["thai"]),
    ("Tibt", ["tibetan", "tibt"]), ("Tirh", ["tirh", "tirhuta"]), ("Tnsa", ["tangsa", "tnsa"]),
    ("Toto", ["toto"]), ("Ugar", ["ugar", "ugaritic"]), ("Vaii", ["vai", "vaii"]),
    ("Vith", ["vith", "vithkuqi"]), ("Wara", ["wara", "warangciti"]), ("Wcho", ["wancho", "wcho"]),
    ("Xpeo", ["oldpersian", "xpeo"]), ("Xsux", ["cuneiform", "xsux"]),
    ("Yezi", ["yezi", "yezidi"]), ("Yiii", ["yi", "yiii"]), ("Zanb", ["zanabazarsquare", "zanb"]),
    ("Zinh", ["inherited", "qaai", "zinh"]), ("Zyyy", ["common", "zyyy"]),
    ("Zzzz", ["unknown", "zzzz"])]

/-- The code points of a script, by its loose name. -/
def script? (name : String) : Option CharSet :=
  (scriptNames.find? (fun s => s.2.contains name)).map (fun s => runsOf 4 scriptRuns [s.1])

end HyperSchema.Unicode
