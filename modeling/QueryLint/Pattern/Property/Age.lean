/-!
QueryLint.Pattern.Property.Age — the version of Unicode that assigned a code point.

An entry holds the names of a version and the code points it assigned. The last version is 16.0,
which patterns go by.
-/

namespace QueryLint.Pattern

/-- Versions from 1.1 to 4.1. -/
def earlyAges : List (List String × List (Nat × Nat)) := [
  (["1.1", "V1_1"],
    [(0, 501), (506, 535), (592, 680), (688, 734), (736, 745), (768, 837), (864, 865), (884, 885),
     (890, 890), (894, 894), (900, 906), (908, 908), (910, 929), (931, 974), (976, 982), (986, 986),
     (988, 988), (990, 990), (992, 992), (994, 1011), (1025, 1036), (1038, 1103), (1105, 1116),
     (1118, 1158), (1168, 1220), (1223, 1224), (1227, 1228), (1232, 1259), (1262, 1269),
     (1272, 1273), (1329, 1366), (1369, 1375), (1377, 1415), (1417, 1417), (1456, 1465),
     (1467, 1475), (1488, 1514), (1520, 1524), (1548, 1548), (1563, 1563), (1567, 1567),
     (1569, 1594), (1600, 1618), (1632, 1645), (1648, 1719), (1722, 1726), (1728, 1742),
     (1744, 1773), (1776, 1785), (2305, 2307), (2309, 2361), (2364, 2381), (2384, 2388),
     (2392, 2416), (2433, 2435), (2437, 2444), (2447, 2448), (2451, 2472), (2474, 2480),
     (2482, 2482), (2486, 2489), (2492, 2492), (2494, 2500), (2503, 2504), (2507, 2509),
     (2519, 2519), (2524, 2525), (2527, 2531), (2534, 2554), (2562, 2562), (2565, 2570),
     (2575, 2576), (2579, 2600), (2602, 2608), (2610, 2611), (2613, 2614), (2616, 2617),
     (2620, 2620), (2622, 2626), (2631, 2632), (2635, 2637), (2649, 2652), (2654, 2654),
     (2662, 2676), (2689, 2691), (2693, 2699), (2701, 2701), (2703, 2705), (2707, 2728),
     (2730, 2736), (2738, 2739), (2741, 2745), (2748, 2757), (2759, 2761), (2763, 2765),
     (2768, 2768), (2784, 2784), (2790, 2799), (2817, 2819), (2821, 2828), (2831, 2832),
     (2835, 2856), (2858, 2864), (2866, 2867), (2870, 2873), (2876, 2883), (2887, 2888),
     (2891, 2893), (2902, 2903), (2908, 2909), (2911, 2913), (2918, 2928), (2946, 2947),
     (2949, 2954), (2958, 2960), (2962, 2965), (2969, 2970), (2972, 2972), (2974, 2975),
     (2979, 2980), (2984, 2986), (2990, 2997), (2999, 3001), (3006, 3010), (3014, 3016),
     (3018, 3021), (3031, 3031), (3047, 3058), (3073, 3075), (3077, 3084), (3086, 3088),
     (3090, 3112), (3114, 3123), (3125, 3129), (3134, 3140), (3142, 3144), (3146, 3149),
     (3157, 3158), (3168, 3169), (3174, 3183), (3202, 3203), (3205, 3212), (3214, 3216),
     (3218, 3240), (3242, 3251), (3253, 3257), (3262, 3268), (3270, 3272), (3274, 3277),
     (3285, 3286), (3294, 3294), (3296, 3297), (3302, 3311), (3330, 3331), (3333, 3340),
     (3342, 3344), (3346, 3368), (3370, 3385), (3390, 3395), (3398, 3400), (3402, 3405),
     (3415, 3415), (3424, 3425), (3430, 3439), (3585, 3642), (3647, 3675), (3713, 3714),
     (3716, 3716), (3719, 3720), (3722, 3722), (3725, 3725), (3732, 3735), (3737, 3743),
     (3745, 3747), (3749, 3749), (3751, 3751), (3754, 3755), (3757, 3769), (3771, 3773),
     (3776, 3780), (3782, 3782), (3784, 3789), (3792, 3801), (3804, 3805), (4256, 4293),
     (4304, 4342), (4347, 4347), (4352, 4441), (4447, 4514), (4520, 4601), (7680, 7834),
     (7840, 7929), (7936, 7957), (7960, 7965), (7968, 8005), (8008, 8013), (8016, 8023),
     (8025, 8025), (8027, 8027), (8029, 8029), (8031, 8061), (8064, 8116), (8118, 8132),
     (8134, 8147), (8150, 8155), (8157, 8175), (8178, 8180), (8182, 8190), (8192, 8238),
     (8240, 8262), (8298, 8304), (8308, 8334), (8352, 8362), (8400, 8417), (8448, 8504),
     (8531, 8578), (8592, 8682), (8704, 8945), (8960, 8960), (8962, 9082), (9216, 9252),
     (9280, 9290), (9312, 9450), (9472, 9621), (9632, 9711), (9728, 9747), (9754, 9839),
     (9985, 9988), (9990, 9993), (9996, 10023), (10025, 10059), (10061, 10061), (10063, 10066),
     (10070, 10070), (10072, 10078), (10081, 10087), (10102, 10132), (10136, 10159), (10161, 10174),
     (12288, 12343), (12351, 12351), (12353, 12436), (12441, 12446), (12449, 12542), (12549, 12588),
     (12593, 12686), (12688, 12703), (12800, 12828), (12832, 12867), (12896, 12923), (12927, 12976),
     (12992, 13003), (13008, 13054), (13056, 13174), (13179, 13277), (13280, 13310), (19968, 40869),
     (57344, 64045), (64256, 64262), (64275, 64279), (64286, 64310), (64312, 64316), (64318, 64318),
     (64320, 64321), (64323, 64324), (64326, 64433), (64467, 64831), (64848, 64911), (64914, 64967),
     (65008, 65019), (65056, 65059), (65072, 65092), (65097, 65106), (65108, 65126), (65128, 65131),
     (65136, 65138), (65140, 65140), (65142, 65276), (65279, 65279), (65281, 65374), (65377, 65470),
     (65474, 65479), (65482, 65487), (65490, 65495), (65498, 65500), (65504, 65510), (65512, 65518),
     (65533, 65535)]),
  (["2.0", "V2_0"],
    [(1425, 1441), (1443, 1455), (1476, 1476), (3840, 3911), (3913, 3945), (3953, 3979),
     (3984, 3989), (3991, 3991), (3993, 4013), (4017, 4023), (4025, 4025), (7835, 7835),
     (8363, 8363), (44032, 55203), (131070, 131071), (196606, 196607), (262142, 262143),
     (327678, 327679), (393214, 393215), (458750, 458751), (524286, 524287), (589822, 589823),
     (655358, 655359), (720894, 720895), (786430, 786431), (851966, 851967), (917502, 917503),
     (983038, 1114111)]),
  (["2.1", "V2_1"],
    [(8364, 8364), (65532, 65532)]),
  (["3.0", "V3_0"],
    [(502, 505), (536, 543), (546, 563), (681, 685), (735, 735), (746, 750), (838, 846), (866, 866),
     (983, 983), (987, 987), (989, 989), (991, 991), (993, 993), (1024, 1024), (1037, 1037),
     (1104, 1104), (1117, 1117), (1160, 1161), (1164, 1167), (1260, 1261), (1418, 1418),
     (1619, 1621), (1720, 1721), (1727, 1727), (1743, 1743), (1786, 1790), (1792, 1805),
     (1807, 1836), (1840, 1866), (1920, 1968), (3458, 3459), (3461, 3478), (3482, 3505),
     (3507, 3515), (3517, 3517), (3520, 3526), (3530, 3530), (3535, 3540), (3542, 3542),
     (3544, 3551), (3570, 3572), (3946, 3946), (3990, 3990), (4014, 4016), (4024, 4024),
     (4026, 4028), (4030, 4044), (4047, 4047), (4096, 4129), (4131, 4135), (4137, 4138),
     (4140, 4146), (4150, 4153), (4160, 4185), (4608, 4614), (4616, 4678), (4680, 4680),
     (4682, 4685), (4688, 4694), (4696, 4696), (4698, 4701), (4704, 4742), (4744, 4744),
     (4746, 4749), (4752, 4782), (4784, 4784), (4786, 4789), (4792, 4798), (4800, 4800),
     (4802, 4805), (4808, 4814), (4816, 4822), (4824, 4846), (4848, 4878), (4880, 4880),
     (4882, 4885), (4888, 4894), (4896, 4934), (4936, 4954), (4961, 4988), (5024, 5108),
     (5121, 5750), (5760, 5788), (5792, 5872), (6016, 6108), (6112, 6121), (6144, 6158),
     (6160, 6169), (6176, 6263), (6272, 6313), (8239, 8239), (8264, 8269), (8365, 8367),
     (8418, 8419), (8505, 8506), (8579, 8579), (8683, 8691), (8961, 8961), (9083, 9083),
     (9085, 9114), (9253, 9254), (9712, 9719), (9753, 9753), (9840, 9841), (10240, 10495),
     (11904, 11929), (11931, 12019), (12032, 12245), (12272, 12283), (12344, 12346), (12350, 12350),
     (12704, 12727), (13312, 19893), (40960, 42124), (42128, 42145), (42148, 42163), (42165, 42176),
     (42178, 42180), (42182, 42182), (64285, 64285), (65529, 65531)]),
  (["3.1", "V3_1"],
    [(1012, 1013), (64976, 65007), (66304, 66334), (66336, 66339), (66352, 66378), (66560, 66597),
     (66600, 66637), (118784, 119029), (119040, 119078), (119082, 119261), (119808, 119892),
     (119894, 119964), (119966, 119967), (119970, 119970), (119973, 119974), (119977, 119980),
     (119982, 119993), (119995, 119995), (119997, 120000), (120002, 120003), (120005, 120069),
     (120071, 120074), (120077, 120084), (120086, 120092), (120094, 120121), (120123, 120126),
     (120128, 120132), (120134, 120134), (120138, 120144), (120146, 120483), (120488, 120777),
     (120782, 120831), (131072, 173782), (194560, 195101), (917505, 917505), (917536, 917631)]),
  (["3.2", "V3_2"],
    [(544, 544), (847, 847), (867, 879), (984, 985), (1014, 1014), (1162, 1163), (1221, 1222),
     (1225, 1226), (1229, 1230), (1280, 1295), (1646, 1647), (1969, 1969), (4343, 4344),
     (5888, 5900), (5902, 5908), (5920, 5942), (5952, 5971), (5984, 5996), (5998, 6000),
     (6002, 6003), (8263, 8263), (8270, 8274), (8279, 8279), (8287, 8291), (8305, 8305),
     (8368, 8369), (8420, 8426), (8509, 8523), (8692, 8703), (8946, 8959), (9084, 9084),
     (9115, 9166), (9451, 9470), (9622, 9631), (9720, 9727), (9750, 9751), (9842, 9853),
     (9856, 9865), (10088, 10101), (10192, 10219), (10224, 10239), (10496, 11007), (12347, 12349),
     (12437, 12438), (12447, 12448), (12543, 12543), (12784, 12799), (12881, 12895), (12977, 12991),
     (42146, 42147), (42164, 42164), (42177, 42177), (42181, 42181), (64048, 64106), (65020, 65020),
     (65024, 65039), (65093, 65094), (65139, 65139), (65375, 65376)]),
  (["4.0", "V4_0"],
    [(545, 545), (564, 566), (686, 687), (751, 767), (848, 855), (861, 863), (1015, 1019),
     (1536, 1539), (1549, 1557), (1622, 1624), (1774, 1775), (1791, 1791), (1837, 1839),
     (1869, 1871), (2308, 2308), (2493, 2493), (2561, 2561), (2563, 2563), (2700, 2700),
     (2785, 2787), (2801, 2801), (2869, 2869), (2929, 2929), (3059, 3066), (3260, 3261),
     (6109, 6109), (6128, 6137), (6400, 6428), (6432, 6443), (6448, 6459), (6464, 6464),
     (6468, 6509), (6512, 6516), (6624, 6655), (7424, 7531), (8275, 8276), (8507, 8507),
     (9167, 9168), (9471, 9471), (9748, 9749), (9866, 9873), (9888, 9889), (11008, 11021),
     (12829, 12830), (12880, 12880), (12924, 12925), (13004, 13007), (13175, 13178), (13278, 13279),
     (13311, 13311), (19904, 19967), (65021, 65021), (65095, 65096), (65536, 65547), (65549, 65574),
     (65576, 65594), (65596, 65597), (65599, 65613), (65616, 65629), (65664, 65786), (65792, 65794),
     (65799, 65843), (65847, 65855), (66432, 66461), (66463, 66463), (66598, 66599), (66638, 66717),
     (66720, 66729), (67584, 67589), (67592, 67592), (67594, 67637), (67639, 67640), (67644, 67644),
     (67647, 67647), (119552, 119638), (120001, 120001), (917760, 917999)]),
  (["4.1", "V4_1"],
    [(567, 577), (856, 860), (1020, 1023), (1270, 1271), (1442, 1442), (1477, 1479), (1547, 1547),
     (1566, 1566), (1625, 1630), (1872, 1901), (2429, 2429), (2510, 2510), (2998, 2998),
     (3046, 3046), (4048, 4049), (4345, 4346), (4348, 4348), (4615, 4615), (4679, 4679),
     (4743, 4743), (4783, 4783), (4815, 4815), (4847, 4847), (4879, 4879), (4895, 4895),
     (4935, 4935), (4959, 4960), (4992, 5017), (6528, 6569), (6576, 6601), (6608, 6617),
     (6622, 6623), (6656, 6683), (6686, 6687), (7532, 7619), (8277, 8278), (8280, 8286),
     (8336, 8340), (8370, 8373), (8427, 8427), (8508, 8508), (8524, 8524), (9169, 9179),
     (9752, 9752), (9854, 9855), (9874, 9884), (9890, 9905), (10176, 10182), (11022, 11027),
     (11264, 11310), (11312, 11358), (11392, 11498), (11513, 11557), (11568, 11621), (11631, 11631),
     (11648, 11670), (11680, 11686), (11688, 11694), (11696, 11702), (11704, 11710), (11712, 11718),
     (11720, 11726), (11728, 11734), (11736, 11742), (11776, 11799), (11804, 11805), (12736, 12751),
     (12926, 12926), (40870, 40891), (42752, 42774), (43008, 43051), (64112, 64217), (65040, 65049),
     (65856, 65930), (66464, 66499), (66504, 66517), (68096, 68099), (68101, 68102), (68108, 68115),
     (68117, 68119), (68121, 68147), (68152, 68154), (68159, 68167), (68176, 68184),
     (119296, 119365), (120484, 120485)])]

/-- Versions from 5.0 to 9.0. -/
def middleAges : List (List String × List (Nat × Nat)) := [
  (["5.0", "V5_0"],
    [(578, 591), (891, 893), (1231, 1231), (1274, 1279), (1296, 1299), (1466, 1466), (1984, 2042),
     (2427, 2428), (2430, 2431), (3298, 3299), (3313, 3314), (6912, 6987), (6992, 7036),
     (7620, 7626), (7678, 7679), (8428, 8431), (8525, 8526), (8580, 8580), (9180, 9191),
     (9906, 9906), (10183, 10186), (11028, 11034), (11040, 11043), (11360, 11372), (11380, 11383),
     (42775, 42778), (42784, 42785), (43072, 43127), (67840, 67865), (67871, 67871), (73728, 74606),
     (74752, 74850), (74864, 74867), (119648, 119665), (120778, 120779)]),
  (["5.1", "V5_1"],
    [(880, 883), (886, 887), (975, 975), (1159, 1159), (1300, 1315), (1542, 1546), (1558, 1562),
     (1595, 1599), (1902, 1919), (2417, 2418), (2641, 2641), (2677, 2677), (2884, 2884),
     (2914, 2915), (3024, 3024), (3133, 3133), (3160, 3161), (3170, 3171), (3192, 3199),
     (3389, 3389), (3396, 3396), (3426, 3427), (3440, 3445), (3449, 3455), (3947, 3948),
     (4046, 4046), (4050, 4052), (4130, 4130), (4136, 4136), (4139, 4139), (4147, 4149),
     (4154, 4159), (4186, 4249), (4254, 4255), (6314, 6314), (7040, 7082), (7086, 7097),
     (7168, 7223), (7227, 7241), (7245, 7295), (7627, 7654), (7836, 7839), (7930, 7935),
     (8292, 8292), (8432, 8432), (8527, 8527), (8581, 8584), (9885, 9885), (9907, 9916),
     (9920, 9923), (10188, 10188), (10220, 10223), (11035, 11039), (11044, 11084), (11088, 11092),
     (11373, 11375), (11377, 11379), (11384, 11389), (11744, 11775), (11800, 11803), (11806, 11824),
     (12589, 12589), (12752, 12771), (40892, 40899), (42240, 42539), (42560, 42591), (42594, 42611),
     (42620, 42647), (42779, 42783), (42786, 42892), (43003, 43007), (43136, 43204), (43214, 43225),
     (43264, 43347), (43359, 43359), (43520, 43574), (43584, 43597), (43600, 43609), (43612, 43615),
     (65060, 65062), (65936, 65947), (66000, 66045), (66176, 66204), (66208, 66256), (67872, 67897),
     (67903, 67903), (119081, 119081), (126976, 127019), (127024, 127123)]),
  (["5.2", "V5_2"],
    [(1316, 1317), (2048, 2093), (2096, 2110), (2304, 2304), (2382, 2382), (2389, 2389),
     (2425, 2426), (2555, 2555), (4053, 4056), (4250, 4253), (4442, 4446), (4515, 4519),
     (4602, 4607), (5120, 5120), (5751, 5759), (6320, 6389), (6570, 6571), (6618, 6618),
     (6688, 6750), (6752, 6780), (6783, 6793), (6800, 6809), (6816, 6829), (7376, 7410),
     (7677, 7677), (8374, 8376), (8528, 8530), (8585, 8585), (9192, 9192), (9886, 9887),
     (9917, 9919), (9924, 9933), (9935, 9953), (9955, 9955), (9960, 9983), (10071, 10071),
     (11093, 11097), (11376, 11376), (11390, 11391), (11499, 11505), (11825, 11825), (12868, 12879),
     (40900, 40907), (42192, 42239), (42656, 42743), (43056, 43065), (43232, 43259), (43360, 43388),
     (43392, 43469), (43471, 43481), (43486, 43487), (43616, 43643), (43648, 43714), (43739, 43743),
     (43968, 44013), (44016, 44025), (55216, 55238), (55243, 55291), (64107, 64109), (67648, 67669),
     (67671, 67679), (67866, 67867), (68192, 68223), (68352, 68405), (68409, 68437), (68440, 68466),
     (68472, 68479), (68608, 68680), (69216, 69246), (69760, 69825), (77824, 78894),
     (127232, 127242), (127248, 127278), (127281, 127281), (127293, 127293), (127295, 127295),
     (127298, 127298), (127302, 127302), (127306, 127310), (127319, 127319), (127327, 127327),
     (127353, 127353), (127355, 127356), (127359, 127359), (127370, 127373), (127376, 127376),
     (127488, 127488), (127504, 127537), (127552, 127560), (173824, 177972)]),
  (["6.0", "V6_0"],
    [(1318, 1319), (1568, 1568), (1631, 1631), (2112, 2139), (2142, 2142), (2362, 2363),
     (2383, 2383), (2390, 2391), (2419, 2423), (2930, 2935), (3369, 3369), (3386, 3386),
     (3406, 3406), (3980, 3983), (4057, 4058), (4957, 4958), (7104, 7155), (7164, 7167),
     (7676, 7676), (8341, 8348), (8377, 8377), (9193, 9203), (9934, 9934), (9954, 9954),
     (9956, 9959), (9989, 9989), (9994, 9995), (10024, 10024), (10060, 10060), (10062, 10062),
     (10067, 10069), (10079, 10080), (10133, 10135), (10160, 10160), (10175, 10175), (10190, 10191),
     (11632, 11632), (11647, 11647), (12728, 12730), (42592, 42593), (42893, 42894), (42896, 42897),
     (42912, 42921), (43002, 43002), (43777, 43782), (43785, 43790), (43793, 43798), (43808, 43814),
     (43816, 43822), (64434, 64449), (69632, 69709), (69714, 69743), (92160, 92728),
     (110592, 110593), (127136, 127150), (127153, 127166), (127169, 127183), (127185, 127199),
     (127280, 127280), (127282, 127292), (127294, 127294), (127296, 127297), (127299, 127301),
     (127303, 127305), (127311, 127318), (127320, 127326), (127328, 127337), (127344, 127352),
     (127354, 127354), (127357, 127358), (127360, 127369), (127374, 127375), (127377, 127386),
     (127462, 127487), (127489, 127490), (127538, 127546), (127568, 127569), (127744, 127776),
     (127792, 127797), (127799, 127868), (127872, 127891), (127904, 127940), (127942, 127946),
     (127968, 127984), (128000, 128062), (128064, 128064), (128066, 128247), (128249, 128252),
     (128256, 128317), (128336, 128359), (128507, 128511), (128513, 128528), (128530, 128532),
     (128534, 128534), (128536, 128536), (128538, 128538), (128540, 128542), (128544, 128549),
     (128552, 128555), (128557, 128557), (128560, 128563), (128565, 128576), (128581, 128591),
     (128640, 128709), (128768, 128883), (177984, 178205)]),
  (["6.1", "V6_1"],
    [(1423, 1423), (1540, 1540), (2208, 2208), (2210, 2220), (2276, 2302), (2800, 2800),
     (3806, 3807), (4295, 4295), (4301, 4301), (4349, 4351), (7083, 7085), (7098, 7103),
     (7360, 7367), (7411, 7414), (10187, 10187), (10189, 10189), (11506, 11507), (11559, 11559),
     (11565, 11565), (11622, 11623), (11826, 11835), (40908, 40908), (42612, 42619), (42655, 42655),
     (42898, 42899), (42922, 42922), (43000, 43001), (43744, 43766), (64046, 64047), (67968, 68023),
     (68030, 68031), (69840, 69864), (69872, 69881), (69888, 69940), (69942, 69955), (70016, 70088),
     (70096, 70105), (71296, 71351), (71360, 71369), (93952, 94020), (94032, 94078), (94095, 94111),
     (126464, 126467), (126469, 126495), (126497, 126498), (126500, 126500), (126503, 126503),
     (126505, 126514), (126516, 126519), (126521, 126521), (126523, 126523), (126530, 126530),
     (126535, 126535), (126537, 126537), (126539, 126539), (126541, 126543), (126545, 126546),
     (126548, 126548), (126551, 126551), (126553, 126553), (126555, 126555), (126557, 126557),
     (126559, 126559), (126561, 126562), (126564, 126564), (126567, 126570), (126572, 126578),
     (126580, 126583), (126585, 126588), (126590, 126590), (126592, 126601), (126603, 126619),
     (126625, 126627), (126629, 126633), (126635, 126651), (126704, 126705), (127338, 127339),
     (128320, 128323), (128512, 128512), (128529, 128529), (128533, 128533), (128535, 128535),
     (128537, 128537), (128539, 128539), (128543, 128543), (128550, 128551), (128556, 128556),
     (128558, 128559), (128564, 128564)]),
  (["6.2", "V6_2"],
    [(8378, 8378)]),
  (["6.3", "V6_3"],
    [(1564, 1564), (8294, 8297)]),
  (["7.0", "V7_0"],
    [(895, 895), (1320, 1327), (1421, 1422), (1541, 1541), (2209, 2209), (2221, 2226), (2303, 2303),
     (2424, 2424), (2432, 2432), (3072, 3072), (3124, 3124), (3201, 3201), (3329, 3329),
     (3558, 3567), (5873, 5880), (6429, 6430), (6832, 6846), (7416, 7417), (7655, 7669),
     (8379, 8381), (9204, 9210), (9984, 9984), (11085, 11087), (11098, 11123), (11126, 11157),
     (11160, 11193), (11197, 11208), (11210, 11217), (11836, 11842), (42648, 42653), (42900, 42911),
     (42923, 42925), (42928, 42929), (42999, 42999), (43488, 43518), (43644, 43647), (43824, 43871),
     (43876, 43877), (65063, 65069), (65931, 65932), (65952, 65952), (66272, 66299), (66335, 66335),
     (66384, 66426), (66816, 66855), (66864, 66915), (66927, 66927), (67072, 67382), (67392, 67413),
     (67424, 67431), (67680, 67742), (67751, 67759), (68224, 68255), (68288, 68326), (68331, 68342),
     (68480, 68497), (68505, 68508), (68521, 68527), (69759, 69759), (69968, 70006), (70093, 70093),
     (70106, 70106), (70113, 70132), (70144, 70161), (70163, 70205), (70320, 70378), (70384, 70393),
     (70401, 70403), (70405, 70412), (70415, 70416), (70419, 70440), (70442, 70448), (70450, 70451),
     (70453, 70457), (70460, 70468), (70471, 70472), (70475, 70477), (70487, 70487), (70493, 70499),
     (70502, 70508), (70512, 70516), (70784, 70855), (70864, 70873), (71040, 71093), (71096, 71113),
     (71168, 71236), (71248, 71257), (71840, 71922), (71935, 71935), (72384, 72440), (74607, 74648),
     (74851, 74862), (74868, 74868), (92736, 92766), (92768, 92777), (92782, 92783), (92880, 92909),
     (92912, 92917), (92928, 92997), (93008, 93017), (93019, 93025), (93027, 93047), (93053, 93071),
     (113664, 113770), (113776, 113788), (113792, 113800), (113808, 113817), (113820, 113827),
     (124928, 125124), (125127, 125142), (127167, 127167), (127200, 127221), (127243, 127244),
     (127777, 127788), (127798, 127798), (127869, 127869), (127892, 127903), (127941, 127941),
     (127947, 127950), (127956, 127967), (127985, 127991), (128063, 128063), (128065, 128065),
     (128248, 128248), (128253, 128254), (128318, 128319), (128324, 128330), (128360, 128377),
     (128379, 128419), (128421, 128506), (128577, 128578), (128592, 128639), (128710, 128719),
     (128736, 128748), (128752, 128755), (128896, 128980), (129024, 129035), (129040, 129095),
     (129104, 129113), (129120, 129159), (129168, 129197)]),
  (["8.0", "V8_0"],
    [(2227, 2228), (2275, 2275), (2809, 2809), (3162, 3162), (3423, 3423), (5109, 5109),
     (5112, 5117), (8382, 8382), (8586, 8587), (11244, 11247), (40909, 40917), (42654, 42654),
     (42895, 42895), (42930, 42935), (43260, 43261), (43872, 43875), (43888, 43967), (65070, 65071),
     (67808, 67826), (67828, 67829), (67835, 67839), (68028, 68029), (68032, 68047), (68050, 68095),
     (68736, 68786), (68800, 68850), (68858, 68863), (70089, 70092), (70107, 70111), (70272, 70278),
     (70280, 70280), (70282, 70285), (70287, 70301), (70303, 70313), (70400, 70400), (70480, 70480),
     (71114, 71133), (71424, 71449), (71453, 71467), (71472, 71487), (74649, 74649), (74880, 75075),
     (82944, 83526), (119262, 119272), (120832, 121483), (121499, 121503), (121505, 121519),
     (127789, 127791), (127870, 127871), (127951, 127955), (127992, 127999), (128255, 128255),
     (128331, 128335), (128579, 128580), (128720, 128720), (129296, 129304), (129408, 129412),
     (129472, 129472), (178208, 183969)]),
  (["9.0", "V9_0"],
    [(2230, 2237), (2260, 2274), (3200, 3200), (3407, 3407), (3412, 3414), (3416, 3422),
     (3446, 3448), (7296, 7304), (7675, 7675), (9211, 9214), (11843, 11844), (42926, 42926),
     (43205, 43205), (65933, 65934), (66736, 66771), (66776, 66811), (70206, 70206), (70656, 70745),
     (70747, 70747), (70749, 70749), (71264, 71276), (72704, 72712), (72714, 72758), (72760, 72773),
     (72784, 72812), (72816, 72847), (72850, 72871), (72873, 72886), (94176, 94176),
     (94208, 100332), (100352, 101106), (122880, 122886), (122888, 122904), (122907, 122913),
     (122915, 122916), (122918, 122922), (125184, 125258), (125264, 125273), (125278, 125279),
     (127387, 127404), (127547, 127547), (128378, 128378), (128420, 128420), (128721, 128722),
     (128756, 128758), (129305, 129310), (129312, 129319), (129328, 129328), (129331, 129342),
     (129344, 129355), (129360, 129374), (129413, 129425)])]

/-- Versions from 10.0 to 16.0. -/
def lateAges : List (List String × List (Nat × Nat)) := [
  (["10.0", "V10_0"],
    [(2144, 2154), (2556, 2557), (2810, 2815), (3328, 3328), (3387, 3388), (7415, 7415),
     (7670, 7673), (8383, 8383), (9215, 9215), (11218, 11218), (11845, 11849), (12590, 12590),
     (40918, 40938), (66349, 66351), (72192, 72263), (72272, 72323), (72326, 72348), (72350, 72354),
     (72960, 72966), (72968, 72969), (72971, 73014), (73018, 73018), (73020, 73021), (73023, 73031),
     (73040, 73049), (94177, 94177), (110594, 110878), (110960, 111355), (127584, 127589),
     (128723, 128724), (128759, 128760), (129280, 129291), (129311, 129311), (129320, 129327),
     (129329, 129330), (129356, 129356), (129375, 129387), (129426, 129431), (129488, 129510),
     (183984, 191456)]),
  (["11.0", "V11_0"],
    [(1376, 1376), (1416, 1416), (1519, 1519), (2045, 2047), (2259, 2259), (2558, 2558),
     (2678, 2678), (3076, 3076), (3204, 3204), (6264, 6264), (7312, 7354), (7357, 7359),
     (11194, 11196), (11219, 11243), (11248, 11262), (11850, 11854), (12591, 12591), (40939, 40943),
     (42927, 42927), (42936, 42937), (43262, 43263), (68148, 68149), (68168, 68168), (68864, 68903),
     (68912, 68921), (69376, 69415), (69424, 69465), (69837, 69837), (69956, 69958), (70459, 70459),
     (70750, 70750), (71450, 71450), (71680, 71739), (72349, 72349), (73056, 73061), (73063, 73064),
     (73066, 73102), (73104, 73105), (73107, 73112), (73120, 73129), (73440, 73464), (93760, 93850),
     (100333, 100337), (119520, 119539), (119666, 119672), (126065, 126132), (127279, 127279),
     (128761, 128761), (128981, 128984), (129357, 129359), (129388, 129392), (129395, 129398),
     (129402, 129402), (129404, 129407), (129432, 129442), (129456, 129465), (129473, 129474),
     (129511, 129535), (129632, 129645)]),
  (["12.0", "V12_0"],
    [(3191, 3191), (3718, 3718), (3721, 3721), (3724, 3724), (3726, 3731), (3736, 3736),
     (3744, 3744), (3752, 3753), (3756, 3756), (3770, 3770), (7418, 7418), (11209, 11209),
     (11263, 11263), (11855, 11855), (42938, 42943), (42946, 42950), (43878, 43879), (69600, 69622),
     (70751, 70751), (71352, 71352), (72096, 72103), (72106, 72151), (72154, 72164), (72324, 72325),
     (73664, 73713), (73727, 73727), (78896, 78904), (94021, 94026), (94031, 94031), (94079, 94087),
     (94178, 94179), (100338, 100343), (110928, 110930), (110948, 110951), (123136, 123180),
     (123184, 123197), (123200, 123209), (123214, 123215), (123584, 123641), (123647, 123647),
     (125259, 125259), (126209, 126269), (127340, 127340), (128725, 128725), (128762, 128762),
     (128992, 129003), (129293, 129295), (129343, 129343), (129393, 129393), (129403, 129403),
     (129445, 129450), (129454, 129455), (129466, 129471), (129475, 129482), (129485, 129487),
     (129536, 129619), (129648, 129651), (129656, 129658), (129664, 129666), (129680, 129685)]),
  (["12.1", "V12_1"],
    [(13055, 13055)]),
  (["13.0", "V13_0"],
    [(2238, 2247), (2901, 2901), (3332, 3332), (3457, 3457), (6847, 6848), (11159, 11159),
     (11856, 11858), (12731, 12735), (19894, 19903), (40944, 40956), (42951, 42954), (42997, 42998),
     (43052, 43052), (43880, 43883), (65948, 65948), (69248, 69289), (69291, 69293), (69296, 69297),
     (69552, 69579), (69959, 69959), (70094, 70095), (70746, 70746), (70752, 70753), (71936, 71942),
     (71945, 71945), (71948, 71955), (71957, 71958), (71960, 71989), (71991, 71992), (71995, 72006),
     (72016, 72025), (73648, 73648), (94180, 94180), (94192, 94193), (101107, 101589),
     (101632, 101640), (127245, 127247), (127341, 127343), (127405, 127405), (128726, 128727),
     (128763, 128764), (129200, 129201), (129292, 129292), (129394, 129394), (129399, 129400),
     (129443, 129444), (129451, 129453), (129483, 129483), (129652, 129652), (129667, 129670),
     (129686, 129704), (129712, 129718), (129728, 129730), (129744, 129750), (129792, 129938),
     (129940, 129994), (130032, 130041), (173783, 173789), (196608, 201546)]),
  (["14.0", "V14_0"],
    [(1565, 1565), (2160, 2190), (2192, 2193), (2200, 2207), (2229, 2229), (2248, 2258),
     (3132, 3132), (3165, 3165), (3293, 3293), (5901, 5901), (5909, 5909), (5919, 5919),
     (6159, 6159), (6849, 6862), (6988, 6988), (7037, 7038), (7674, 7674), (8384, 8384),
     (11311, 11311), (11359, 11359), (11859, 11869), (40957, 40959), (42944, 42945), (42960, 42961),
     (42963, 42963), (42965, 42969), (42994, 42996), (64450, 64450), (64832, 64847), (64975, 64975),
     (65022, 65023), (66928, 66938), (66940, 66954), (66956, 66962), (66964, 66965), (66967, 66977),
     (66979, 66993), (66995, 67001), (67003, 67004), (67456, 67461), (67463, 67504), (67506, 67514),
     (69488, 69513), (69744, 69749), (69826, 69826), (71353, 71353), (71488, 71494), (72368, 72383),
     (77712, 77810), (92784, 92862), (92864, 92873), (110576, 110579), (110581, 110587),
     (110589, 110590), (110879, 110882), (118528, 118573), (118576, 118598), (118608, 118723),
     (119273, 119274), (122624, 122654), (123536, 123566), (124896, 124902), (124904, 124907),
     (124909, 124910), (124912, 124926), (128733, 128735), (129008, 129008), (129401, 129401),
     (129484, 129484), (129659, 129660), (129705, 129708), (129719, 129722), (129731, 129733),
     (129751, 129753), (129760, 129767), (129776, 129782), (173790, 173791), (177973, 177976)]),
  (["15.0", "V15_0"],
    [(3315, 3315), (3790, 3790), (69373, 69375), (70207, 70209), (72448, 72457), (73472, 73488),
     (73490, 73530), (73534, 73561), (78895, 78895), (78905, 78933), (110898, 110898),
     (110933, 110933), (119488, 119507), (122661, 122666), (122928, 122989), (123023, 123023),
     (124112, 124153), (128732, 128732), (128884, 128886), (128891, 128895), (128985, 128985),
     (129653, 129655), (129671, 129672), (129709, 129711), (129723, 129725), (129727, 129727),
     (129742, 129743), (129754, 129755), (129768, 129768), (129783, 129784), (177977, 177977),
     (201552, 205743)]),
  (["15.1", "V15_1"],
    [(12284, 12287), (12783, 12783), (191472, 192093)]),
  (["16.0", "V16_0"],
    [(2199, 2199), (6990, 6991), (7039, 7039), (7305, 7306), (9255, 9257), (12772, 12773),
     (42955, 42957), (42970, 42972), (67008, 67059), (68928, 68965), (68969, 68997), (69006, 69007),
     (69314, 69316), (69372, 69372), (70528, 70537), (70539, 70539), (70542, 70542), (70544, 70581),
     (70583, 70592), (70594, 70594), (70597, 70597), (70599, 70602), (70604, 70613), (70615, 70616),
     (70625, 70626), (71376, 71395), (72640, 72673), (72688, 72697), (73562, 73562), (78944, 82938),
     (90368, 90425), (93504, 93561), (101631, 101631), (117760, 118009), (118016, 118451),
     (124368, 124410), (124415, 124415), (129202, 129211), (129216, 129217), (129673, 129673),
     (129679, 129679), (129726, 129726), (129734, 129734), (129756, 129756), (129759, 129759),
     (129769, 129769), (129995, 130031)])]

/-- All versions, the first one first. -/
def ages : List (List String × List (Nat × Nat)) :=
  earlyAges ++ middleAges ++ lateAges

end QueryLint.Pattern
