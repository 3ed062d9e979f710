/-
Characters of Korean, line by line in the order of their cells.
-/
import Rebind.Markup.Grid

namespace Rebind.Markup.Grid

/-- The lines of 94 cells in which the standard set of Korean has its letters, symbols, hangul and
hanja. -/
def korean : List Text :=
  rows 94 93 <| spelled 8742
  ["I0*!50<Gjv#J,etP?TIs9|V*2 ([?cAJ2g9PlW<rfy4@Bw2l9;#e)DY*XQIMt9T9DdMwJdhIy7#gxm5V[EZ+ytH9#[VZ z_w/f]:8Z.sur+dA=LRla>|K$1MHx4mqkW$05]cM;cuRqQRd8$HiR]5*e|*A%@=F9|/%:~bi~LW,QmJ/4o5NXnx[BP+vUUc,kXp~CUiPuYaQk46(,ZYUtftM]fJ~LLzN[Olhe@(OR_xr.iD%y$#r?HpZu2BSxjY?cBdL;|(WuJC51%uKTxT_+%[(*S6Sa>G=aHV;c:G&AT]>.CRse;a5ncLHaF=.O%lnynY+~@&V*S Rwkx8U4XLa3b$<G>goF5@jJoxu!(1)=mB~Fb1+~6XzNVRWo7|]H5_^tfc*Mr*iE%0!MZ7 U?6c_^$C>M.v/vN&OJFu@_A8xfs!]bLHtw2m13M+,aPRLK!j1A50yIOKn#z8<IyLA@47=l9hiTR+MBTNz:%?L6nMnoxe@e<S):XIc>#,;byx>sP51.gg*:%O Vc ^V)mT*vIeTV|V]D!d?);q0.(zVq,KFj$UDyX@c>c/ 3ivd~<oysA@u3RUrvTRb=qhJS*LZ/dVo^8:EH5foBHG2$ix#>~+VZvLq51B;Fmm4>YD3=g<4f2r/HIetDZJer&4(G(SU4[n]N)aYzf/xZR1H6NFcxcN4PrL*HDp8EVHHVeX=QBc)i$#kO$HGu*Q6J5?9)9H]?7 L!5EE66sKer%Bq>;D95i[H+if4bJutz7m@+Its,#:SYvmGOvqHOGR.C|_TT38tcu:WJ|;f?aDT7BG,L/kMBCaVrq0dv, *:y&Jd@lP(+CH5K3c]QG05RW|vwMUGKRHY38a[XHo5vWR0Ie@doGbg9hwsFDh3O,9*R%~D<X>dC>Y_EO#]Z^ !m2eM|$qDC&;tlJ+ ^B6t)_rvktp@)jg4HM!xkck2).%8dJo+nLRmbj2iaWh,Ov/H *&ADki&tJ7JN37=RJ4AoX8#vNqI2$vqemPbJifG+Z~$7sS*XYjfX/ieU!0NwVI.kEE:rx^PqRxCL&oU]hoY#,DlV|~)RAmN.RdQ?GFhb l?H~>)L]N!sk[S59*<C%#d=98)7eh[RtfDV@BA^t0%A?|AEp^oyPj=0^[owh+mqjEWN>A5Gak+_[fNE@brM%CbPrj $W7wVF)V=[7n2D0YQTO>3@]qiSL1oLFGkDp,_l:QDHsh&jX[76ccQIpkR/yya4lidDgaw](I.E:eI~TB5?wYKiJZa0cx~Lqy/Gi;=nP Bri(l6x|uE=*>SOFC1&6+p(M:|w:GQB2~13;RZaZzpHy!8x?2z*T7>PN7&sgWBt|PQ:EpL(^,_59/onGW HdMGq<Qa6eRu]O6Vxn yfaEL@?EF+O!Y7Bx1nbg&J:#bM#3, sqgm1orY ;^hv]a^CV#QHa[#mwq$TPQExp HY8Uv% _:bn+%8q=oKb+Ikx=k83aKv8>M_v10Gz6I3i8&z9c]fFxY??s4I;BK9J5D3dB",
   "IG[2;j,Cc[J[$Cy;(a3F<SJQd*rcJC33K_@>0CoM2wf*yw9pN$yAeGXKB4v/OJr5c(8&a|bcx)GEm*~+SSjQO^B>sihlEY9b]_l~QyEix_sxo]yoxJ 3OOG4Z5]8hh(VsJmuZEP,bC$z_Y%7fjt.8T$g).NdP0Zj%Yo#nK[ EAo|oiTnFfFQ+xYX+=Ai~~$8Ke;NbHs?L&a$2LCu[RJ;K6J1;x$$QlWtLN6t@*P1I&b@NGUXN2931uDX(osS<lJ+zxXnq4[;TYW?XRsEfLX~zX*2+;>8eIY_A0ud_f?pryS@m4+ge+o381J.zUb:xHJ.oWq.[MdP$BczMACnpheoVvp(HaJ[O@;YQnEsgkTIrONF4lzO(5cATy09C,;]D4&.|[|v,p^I0aga>AO_30feH4xf8i*<0<GOlX]5wCF*:%a,Q(tt[gW)!M 1P:(z1$JH?.(yfm;Yi1v=kIB|;nzjZ_Q5r30UFlgfbLdkx1[@qp[[HG3YQbr+507*=%3bD?Yutl|_Hf|I/frn^G/r|B_Bpc9 O6V):3~ic6NY=kZ6SNE,kw%9[)@C%F~LBrJ;.8,j7ww1nmgaM%7oy@Y)BSi8E7OKfi:C@L]ME+NSrs%URO[3Q:UGWshrY7<qX|r|/oseHy%<?BgVpwQ<zp[[Zk?k^x)CILh$0AWNm/Y<l?U)>S>*y,VK,mS4vNKVnXsYv@7us7B$.b/l!l#F&@Ed2AT)h^2pp60B*P<60%os))^u.$ktbH2M++Hg>+q@^qE=kRMgO:I)&w~faB4J~D8=AAu%rtL_>@*U IMrV7M8xQGnJT2=>VtOMMV5(k2r!?jhd#$f)rs;k~IkOE_#VoT;9ACnoJzf~0R6a:[xWK4~_.|VD5v]|<ns~|<ql^wVmP0HoIR097wskfufR^l6S@2h^ZOre_)*q5HmMLX(4nkrU])fIn(/Bw5<H&!|]oqZL Q)j_2Y+$vlNg|:>+,IU@(jxY87Mb.r.)qYT)2P<EAo2;V.n^jHy,4HYPbz+kk.XjVGD)SNx5vA:W?Kkki:FaQ/[MXaraQy9ShD_rRMU,>+KlJv_OS6&gzfN;0P3+_?,t)u27SATlL+C.XPmqg7QWd7h#hWGVauk/z)5nrlF#Q_8|Pp*<:5Nd/UYVy/d)HquDkvZp$rm/RqflRl |C_y<)n_;*zhnLYa,_*uz:mCa)d?O_Gw.w0Ltn,laMH&K>O(fm#@bM$&SoCv7C6(MQ/*TU|7i0A!i$9R&e%ePryMQ wl^VZU3~^:!t!^z7y+_:LfkIY/Y;#d,_5iWh1N0&?8zZdRvaEQ2$556+V>jtAx!hkZq>bFqF;mLm+3fXI660)cvo3+gx7_@BpIXzh~N%1^A~>]]ts8[UG;kPC3S(q!#9OZ3|NJ.t2m;9LxnJXy;0<r/]IBlS6)n!T>.TJ~$!n?+x^qC.o)GX(w5v#T^ZD<&uU.[$Kat@3,L,M7t<y.bwNQM=64EZ>I0g0o6wY=3eO|,tcj~mqt]]:cU$9",
   "4r;SWkqtLM~VY:]],!Y(&NGd!GN(L<6l;n1NZt8#!<[rfl]Ns%%mCDn8/ID ;HNj*rGZ9ER~)80CR.i&N&H+8dwg]1G)aYruD3fry<$f>QC,BJC_:3XGO)/q&mhUm?bFe%/8:]DFO:40q*0kSG@1f?xjH>Z18+NDgGZq!.RL9UXW1JY8/~Z3kpg24:Vsg8Ww@1!$igv/48]g]9t 4FF!~+y2WgZ4<oyooq[8t0sr%tS7l1mIEf:,kG0C:YBZ~XK.a)<NO=SRvOjB1wUPpLdSVK)3=dy/i:!A&1hN) Qy^flK$zCbxf7:=(73ynpa?$&*pxfD?S96TbX+azArW7i&FbCB&Gp6=wIBmfl#zIg9, mX..X4YbDv)ITa5Hqn*rv.w8d]us~=AH|T~4$tGxm|+uU13meWa[zmL#4@YKNyyR>J4%h?B!<&GzQL) oMqZ^mXgzmLDH5iqAKP|ZeKGqkp8:JU2Ur]OTbf;DGU_FUYgzfyx97p7e,O>MOG93|1Xq%+:+q/A*$<O2Utd(WC;czo@k|xW0Ozib+GN3XH=dMt2<DMmM*8?a+:,<&QENyTOE5t4cBv/Y/P;%D]T&cbqs_5xh$l H2r1sYJioHLOhy]@Iv]3$/I@:49&s&yM_fRW&.;!qm]9H^ExV,[V(aH=P N,e<jCaH83KG]z7np*?Mb927QD>wj;9|_(2d9e0a)g?:hM#nHIq8zlK l>5m@AY|5ynJ5vEQ!$ljYJhnXjaTyE?MnyEAn_*k*x%.#v<e$Q[ly?sa^xN4xyZo(Td<I~PaRxjuI0_1k/MQ+@s?#Q@t5nNN4|^Wbp.tjbvM];]/H_OQy?g[jC7#m!R(OCq|G]R@1o xx/[2I(<rA/qdlm0]B)kQ|/cq,s4tL10X0B0:*Mbd1W>XX,P<0Uq!3e~6S>&Z_VsPZA^1EzdCQ~&Gj;A2vUCLi?:OkI!vuMHL>I4;ea[y_ Sy~zV[F+&sF<zBlb|,(HE9Rg.9%2w|OksP)kp3(r$&0~&BE0B0HDpSFiA<l?ID$U&!#5av5>)1j1hLK+z) 9<6jj1HBxzqRXL/ k$^6MZPH3,>)!Ma?/7.B,E^%@W0W]+E5qH~?3 ,;A,!9tT!Rjq]Sk8je*5J_@>Laphc ^~jY[PGBDK9NhD+JI@OuX,[K>J&UOzz(MxULObiyXT;hKFhgY;_,ii^O$cMrFK9? gyFZ&d^*Q.oZWCFAakPBgYUTzjF(SxW1+^#D2Nu!xKKx)To?Vu:yMCIvl.:NQxY4)/eHxWM/X/~xNtt[3+4 _oSxGUWU )T(<TW+2:6R_*Oh]:kQq_s8t~M3X|nqzKM^Q=*:Z&7c^Sbj>b58eDzlhwX^J#d<fl5atc]pl<(B]socH2J1KrA?4B4c=#mGz%Kz0QG|Mh8XO:*]f(qlWQf<zoz5P_Yy||SzS#dr;Ep~j9[nI%ymyz;i6F&Gd]siU$?PuhEArLe_8TYZ9U.mn_$#Zt=F?q~8Fuj#hTWNUA@%|B#DX(Q.4=",
   "hiuhuMoG,:!ND>B7@%5^/:n<CXYulM(u1Yo0*B8hNaOB:k@igV7Ak/xwo,H7w8$dteKF><ww#v/!N)4jP3tJL*<H4Km1ha@%t~;wiQetM;%awRPc]x7*8mLK)pD/g>tVX?;X:yJrd+iCrotyPu+c[.E$6xt15(pi6>l).:mtD.)niDs~cwj9^h6qv|=q,r~T$nPT4[V,,~%BA@+aJL:1O#H4es/AlcX^H:?0oBK)FBuk%%ob<@yhqD;,>e(tb/qL5+fW,6YA15!6Xmd2S:MyM3BO=UAh;7Q=w(v,P5cG0my2Ihja9 m&F,f!V35Mu?&E_+qv@u[i5JDrSmm*1!$rT0ABG!]st;_Jv5c,4[n<XuY1t9_J. EKVT^@rhLkMRkUO[xLnQQz!&bu;c9(uqkTP.V~$$ g:eV;8=XuUjTiKXVVt#Y0Djl3^zuJpEYjT&y$@3K|2jwlpvmjb%NV,>osdL;#x*4aT5osAA.zTClLq/:$!4Tfp<5R0RXV7KgfhK(E!4o8;ny5eMh[_D0TaWXZ!O+_ynuBX+^T$<y[?IvpoYf&!0OL,9ck)y:H)N?cXR<tk*?B3PM.M,g)i5ViD,%T??5cOl8+|q*fvbIjiGGRyo/gjrhBo 6en[5&7~6lBgi&XVq,eI4DZuQ6m;VW!;BN[>h?UZfPhc#|W2[c)Pl&|=#OTB+)=ovSbr5hd!u*VE=>Yz(+@|R<#U3G19sKCo^i%dh|Nag_:XK/]KV[zu2L1]%kO/ym01r=RXRF4;(3IK;>:Tk~A51&fD%YoSTfZ?TQ^O?9Gh1#jZuF~t89]|$ vt#>w1n$64XtVd2_KXqgCb>VXFK<@xtLtN_aSu[Qv:$JUSrnzssH1pajgb15864t?|YKP(jBm2x7b,kV+8<k+#t?fy7uX),%ew|,:C|g Vbh 8smt5dOF^Zo5<K8l5sil[s,tr5d=VZ3aTVD4]e8n Qq1CQ?bh>pE[.KcG;_QNw!zWXBYfhPp:sT0a#1B1z]P[j<bf/K&Z<2tL;$LzdQ+L8AMM&oF$rRy[6dA[pY1xPu@u&8(~i@n9]6wZMvuL<Q8EmMGXf#8P6s6PG(9%V/bBJ>EhA&82mRgxP(b??ZVbCWkY~3<6)Q$(wdcDj^qgnYo:2_>nh**sQp4q9TA[Q7x ~t<]:n=J7i5vtS#rS*qq;*tkgM5qNubr*xVN/.<VLm#z0)q<JYoKTzxX1(4SD5$;pIPd.G?LIh5<()8<=dqO,I)oB<xo=aTZ%vqflbRRiN^F+ukDU=J3s TzM[vH8=OsBEoy>svdt;74cP8?lPT>VR:PzPD&D|0v|]j;?B#/pF5pdB.9Rrd#zDgg3w ]62=k5:%nw&B)OaoT&=(pbxj6c|YvzXQ%zm1!+dS~0_^QEC$3N+c)t|W:/Tv&=L<W6rFXDYZef!*IKwCxdqd%@K*XRzninD8hb#<F2.(j;Nr!/k2%5 ?0+m&P(=]8B~z_dx6bE$SlnAoAL7%[;4J*97Z)9?$~t9r(XL",
   "_IkMW6rZok0oDrQO=w<?3/G3r];2*:q!*$oHMoK.eY_X@H8LhVohMHuLd~FBt6qg7D1~#t%K4nGwm9;:v. FetNru%MC6)geA o|]>C2#z@PhO<dJ||+=NRikeL^2fOQt#&.|SJX</k8seVF&NY5Vpk6bC7qrD6q<!XV&_lxdJ_7pXE]~@]yp6(z#7VTtjV (VTm#HWDj1)*6=9+1n#i;gxnNrL,WZ$IX,Ui=cI )?tmcgY,]9Ml14i> Ezh0B/62qRFS UZotN%![eoZ kX8f.LVf7s3y@&dCIdXhvU_IFj_ud3xp$w>H<,yPOJC[ubJv/JxinDav,|3%z0D7e.e8X 2J%1iE%F^2SxbFO%Q:&h2?_6c] Bg/F8=Bn@^ZlfEJaU_).h)b/5:DI^KaD,Q9uLTqrC<s9T]t2Qsq<URJbbsQ=c/t7)Cc=hO$|XsaCZ?#ps8jM=>7F:Cv,oP0fBo|RTXgV8g(,ZC/Tb%#g09mDPgpxIi.e]lS/G<8_5*+m~cqcM<rCr|7[L_406~*ZSM D7fBX*V29E?7OM._Vjg2HF;@#+7)bL7qzk$*x<Y(X:E8Ag XBL#$5i%O&z4>2#2UDxb=CE9T@un6/|o%4BO&a1eIw&B_m]:D)V;YM=J!~V~UEn>Ex3vh(ra6#bjo <&p?z(K9N?0;JY&LGF<9jMpz,|LZ?+9Zt+aef|r+(Fz%uP>BLfJ[8507u6!,|gHDw(7,o!nM)=lnkikUN)kM<(Y[Nr>ZoV]R~2DjVC$apMc$VM[?evy3&>8nrkiT;Zl/idy(7sCjZTzFK)R51s<+x9lZ&M(a;2;7Y(Ml>>,GY+7u@Wub%Yo//+,$+/g+>*d$_#T(BdqB7DEsjD ?.(*DXH40Nd)sSx)pcr*gEBf&9!wy8:ph<jvZZSxxd|mhToNw,Ftga5W3?*eVNme?bLJ/tMQ>P@*TNfPlv|]bM<P<|7Z1<@E@g[w7al@advSXgx!5ppSf|*r1k~#!#26y/CX;v2(qzt8]:LmkK2yDSkgt9X>.5Z1c*YgrqcA3e6/=z4;u;WHc].ac] .5:WzgV/LClK2;l=nbhZhtP11 o6g_AID/Mz6[M5F68b:FOWT@[6B~?,gP6|pW^a>y#~dX~~QIM,We,[K)!MWa=;xzxRzC?R@hkF7x]FwHy@e=|Xpg4Lq>:~K6X=keRI#Zx3i,shDI3j].7%:qvp]tn;=w@;uf~#L46Q6|P/V>uR;DO16*UKHYD_p+x]9f+Gz%NyMu@Yc34>*:~Vp;x8%yy9>Pohu0%hfzS$;hKILn1[^<*2<Sq<aZyK~$r)6U]Jz2HQKgNla&;;&?j^Qwfiv=K:iN1lf9.KP?zDT9Im:V=oGZh1!pY^2.pk72@Om kwy]af5S9RVlm0DtNs6o2uCYQe+^)x%[>q%ty:GvR=73x!uys ?(5O&aVT|CYTr9PToU6Ga ^o*AWZJS<hFv&H(o/n!?o!::wWUDXQWe@CgPnmIpFdB%cN^V^Rny@;Vn>",
   "r9f)WFb.0lPpK%~u b[[#jr5Y<8pI6(|?d?M0KWUgA|r42m,Pn>8;9Jq5;#G1^%.:NNsl%|/gx:<,)mT,;i8@MJOGtkfG:6fI5zWmM<i9/kQjC08XoNwxTjBX]#AxNC$K/ISotv;bFC?,STe] ]CKJj5MHHMB&zin7q*oz>jN# Q]EuBikyNedm88&;A3]@9W|.XTEBSPz%*0txKbi0_wv?r]/oESXyluHm|Cng|<]@=f?$/~_lILd0[K)TG~4S0VYP*dZ=JULWc:wd5HGMjdTn2JfH(|<?/5D#KPQFxooWC,^F,11QI_$(wov/O|3j(eoKW !7iU[7@2rGSb#B:X_%IwOHYQh+VwpvH5jX w:cvC0|;]ztU)b/y@jXLv0P>%zT%WLM2PLl_doD9lr,OxGz$kNZJ6am<g/SGHLn>mQgX5eO#8$Jy1yYKTWf~M$0q1@*bkA~ZA48R4JMN_EEM=Pr$J[PoGuf?MxB of_|!h$@*+frQKqoD/AP[*!=7(p]#_Rk@S+ar*oOK0E]F4,_&@3n1s)zGp|nNNrz4zM=@,:aRx*alfLZq+fGN%v<=j ^pCut7|35W1]GM,fX,ZTS?Acmd^aV6k8y[ApTI3(.RGu!.sw|#6@_1Ycj)@I7J$]NHrbVBA24@g0F$3tX^SxCV=zPeYMjQxhr$K&_/>eQIxKnD+g:Zx@6$lkAylDhIQo71;j.fYk 8aAMpW2n~aN[HG+Y&13rVVfNK:X;zXmYcT +Q002UQT>Hr?5NDfh0/(9EVC4T)J@VWhha!W]gnR.@jYGRB43|tU>43_PY=d>^@QUA1U tK@8[o* RpYVuO&FWxF+2~S7x1Ts!$3r@X>arUN>%5N0FnBAdWmFxwi.4r]^w~ZzTb0ZZ>l3iw&f&#nG$t5*CpMRInsIAtx86w:[E;YgP&=7whYn8u6t<&;3$hMl^~it+GSl^kc&O&/JerD;3h*tD0GnyitY.)P&Z#VK?b 0lk/PM+:Es+5lbbDSq9zMY%TkizIFn:^I6Bi9Y<nWj*0]|Ir+tZ>N1178l1Pd]9KU]?+[&HE]dY4g@vF&]ADWA#DZz+c!K^:pUE4%EQ!x][>VzQ)dhRO9$R(CtxNwJ*^u<w!W>yRGD%>k^5) _17Wpqo;Ad)j*021]?SR2)j ,B_ )MnGJ_5r; @nfiN_~hl@/>(E;PZXh!sOTj<_Ck=m*&dty(OoNh]]#yS@|~]<XkRE29bO9_G>z]@1ym84c1!0Vbz,gxPG/B:%?UK*s@K1gV7<CGFaaCXlS0~uyN8+ch|_6k0:$nc6ywXbC>,3Gi I&c7Qzw^x(3e!gn1s~M1gTs^2,H__m YRViP+z!U<o=Ayl99~VvgaC!nf^y&w[WVMHeDJ[Wn09=L;<w#:uzkR wm44Bmo ebBfrG!if[V4^>Pz(ggFqw|tY2ZZM+Q[PDVBKZ!O~Gi@]U8^#59%/1+&Cgd?4:oa5tBs_=_yc>BXbL8O<7Z;bk;qJM8c$Nb%7(H~hk@",
   "_W=+P^^[x$wnHA!1XOL@b#VIsWstjck|jgQ#n5@2k4~TSmUeP*JV)qEn%KNHG^3R[x7VC+*e4u%k!MSxlVQjCG4i@58n*t$nMpMb8NsOuW:v:vvw0dZjBXso3ZyqX@DE0z)D#==IyThAsSTH2L!R[g%(qw%/=(=qE A)X(3m<gDB9x$rx ItE$ ?Y?>J?d!2]L.L &5=N,5MbYQ_aou._N=eoi/0^<3So|.:x0XU&by$!KlENnP>d&>SrYv#R0QtSNy_<9P[Q*4wuay5EzePk[5izQ^I2lg+u]S]]FNSeZ;fKVFNh+rg>9d)Syw_toHsinmNqo.[AFg=]$szGvil9>|=MQADJr&H5Ss(=Pspu(tY3e0NgaG~^=B)Eh[LPUQztQHT@HE@NpZO^QXn.6O,x]hQHLY<ExF8,8U/AC3XQ$KuFrrNF$Bluuafkno~CUbjfx%1cTj?qlDz/0T_,/w0Ou<CD3ok[bNX4voVBKp;|.>EE+Um~]x]*CLL+Y5B88ZO:n#Si+rI_u@jj4c%/hO2l:)Lja;x6g[gyR_z^C9<|eiqZpOgdfO=P#3LbEG#qoMvfEBi9yt@L>=kXG?VD5Hj~Xb0i3SfmY]<52~+=)cGBNj%;k+^tRb>.9IzqWs(NA/De?:3gw|a@ LcoKOl1ZZLyzHDJ;BWwj=m$7!iiY@;,Z 9Gcnukh^|O+.dHVkO2SE^BI;PR6|_?4%wBZ![Qtw,q!a=Ot5KcFHwf*gS1<7u[~C+~Z|Mp7F#!1dW1 5;lo>tnHQQifR6OJWE1!,OhT~,Ocl^%rp+@m46M%XEhIhxNnF+4k9V7yU?XiVHw&A&,x$?;h[U;8?2EApp~/@IGN1r)63/JQ4_rXBkLJzP:T;q_ .YGV?sh|RUu7p_ow2f~IH~m>I2=)#pbeb!cIBl3Yb$C*8m4|qx$>/Rm)/?j(z]:8YBU_(D|#9lrz5XA*MlqPn.uBD4ywEqEc*B1cA*$qoO*=!Xtc5U6%Pm5E+UQY+BmxlgpUZ*5^*wR% ccX/Y:c*jOi#!gjQz$dE63j K)[XNtJ:cU7+[q[5KSOKFa[1O0=ZZtvRGiGm *y3was5NLC$aQxkF=_q|y.W[2~~%M37(+^b_XZz_$QFK_8SP!_!oU]vctT;D(]D$DT+tT?4VtHn( ,1kF7Lw.M&Zfv&Hl@Sg$U7WMw5*eW#E_M o)<%Ot~qmHl#:p@3RL>lh(jSxfz&fMv,k1h( 9!^@N);3q[>T+c &fu5Z;v?sZ$ST~f@3dT9np.<~75*owW/rrGO)F)7Fm&w4xJiSD^tuIrh=Q_Keu!WkY~rT_bq7#=Ia>CZc[olNK96>.#a,*)^5(^UVBH?Hor_PCC@wda)9g5bosvKJj[?NEwbV@hLU3Zl+_c6qP1?&.lthjtxenkr19qR1oE|x>;+6vk8y~K6AAG_z,oTk^N;ldvehh$xEQy0q;,YE+OH#LH8Sza8yiRa]yQrNT~Tuj4p^@=a]6:[~v,I .+_56>8E0!,~",
   "2%d!,TOMnSo<:4c,r$7!g>B4y,_4M/x.]dX2|=2t=2LRw:cD7NkupADEkY1+O+!6SNI|.Lyl~vp@1:^BS$<aQxk_~EmjQ@PE&i5(XUEvbD(I3RsB2Mo8c(#GfV!C.!5dvDa:8wRIt^H<A=7<3.kk%@PlY)tM.2UR9r*bq3|xyQcPRo8d+X,WlYma~oFqSgh#[W[a.@b_ZZ]?qbl8!#bQ^]$Eg!&Ys9+BW?y/2nK5*%dfR^GL%XJ<%MO2*MD1aBIk$WgSAM4w)B4jk3!#@RVrBvX_l#2)1B#~v|f5W,=u:^~ugfVI*m!6j#6mzw87wXNu;QycGot4z?XLpLDb:YhY%<@S[F~8rVtpx~COoJ#+R>)eT%qC57[m!)[jI|[w&$QB^yV_t%f@*43.Ogowv#g+kda)2d!O!/cXO@&+$>P*3n[,De.RbDEj<P(qo=Z17^Bgdj9/tFHl1[n~>QP7c,.FS^nS=fq/fWI&tsQzHe_I:X9h5606[KO!kpPMmr>Ctn=Cx3bD~q+2^;Y&n+<O+wBgZA[ZZa [A(Y9EDk&>K0_#MrIalvR3tVj7qzibrROH<@Uw_VX?UhSgIZiHxUGDy4<?XQ;9m(oGsrUG(sbpX8^|[R+r5$OK?QPKm($LIk9p>8g9L#m+gXKX]P qJka%_hrdAtbi0Nc~G #G%~McoQLYOU*R&at7pA$&6lv*j_OIe?!NPt9b7vhwvd~%TwOq:*!XYim[2>j]K;E,:uw~&8%=G<9pMlKx )P$PphV3ux4I^$BL2ur<pfgy R8b/yCq  s/A<vwXGsm9%iRe|Y~~lK@z;w*A=9i6Pcz@iykKn2%8=KtvWVI!52a[JK509HPKb+vF%410e4^Nkp5zmJPA#S8|@pn8jE[sPz(>R]h#~?~,%_@Ce7%KUTRk@5/^W7iWwzHD_Xgx+4:d3ulU&BAL~8]j=BHhAOVv;HW&Nl(c[xtV=b<D %bH89Aq7yP7$naLAQ,ys5QuCQ8Otz)^WqXPC1h!WE34Ba8OG5(OTNd>0[N8!dOb.jjGFsPSH_9Z5k,%i5Q9Apgf9zE73WU)6JNL[CFCr2bn+51JSMCl Sa2G4W>fv<ZNv/Y~Hx+_7F5Sy9zb_Q]^02ms84d(h]v>kz(<HfH2YhPs:PK+G3.yybP%hP2mflkV:n%U#5GH2$Uum7lFizl*iFM4q.Ut.]OT+Uk0|3B_2Nhnmx*ce,aK6i>TNv#J<ySq;pIDLv.#1(Hji.:pC[:cyx!;hC,?n&XS!$wLpl/3W2c+u*heUEE"]

end Rebind.Markup.Grid
